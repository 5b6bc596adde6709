import Blockwright.Text.Chars
/-!
# Words that generated code never declares

Keywords of the language, its standard globals, and the members of a browser window.
-/

namespace Blockwright.Names

/-- The reserved words, separated by commas. -/
def reservedList : String :=
  "Blockly,break,case,catch,continue,debugger,default,delete,do,else,finally,for,function,if,in," ++
  "instanceof,new,return,switch,this,throw,try,typeof,var,void,while,with,class,enum,export," ++
  "extends,import,super,implements,interface,let,package,private,protected,public,static,yield," ++
  "const,null,true,false,Array,ArrayBuffer,Boolean,Date,decodeURI,decodeURIComponent,encodeURI," ++
  "encodeURIComponent,Error,eval,EvalError,Float32Array,Float64Array,Function,Infinity," ++
  "Int16Array,Int32Array,Int8Array,isFinite,isNaN,Iterator,JSON,Math,NaN,Number,Object," ++
  "parseFloat,parseInt,RangeError,ReferenceError,RegExp,StopIteration,String,SyntaxError," ++
  "TypeError,Uint16Array,Uint32Array,Uint8Array,Uint8ClampedArray,undefined,uneval,URIError," ++
  "applicationCache,closed,Components,content,_content,controllers,crypto,defaultStatus," ++
  "dialogArguments,directories,document,frameElement,frames,fullScreen,globalStorage,history," ++
  "innerHeight,innerWidth,length,location,locationbar,localStorage,menubar,messageManager," ++
  "mozAnimationStartTime,mozInnerScreenX,mozInnerScreenY,mozPaintCount,name,navigator,opener," ++
  "outerHeight,outerWidth,pageXOffset,pageYOffset,parent,performance,personalbar,pkcs11," ++
  "returnValue,screen,screenX,screenY,scrollbars,scrollMaxX,scrollMaxY,scrollX,scrollY,self," ++
  "sessionStorage,sidebar,status,statusbar,toolbar,top,URL,window,addEventListener,alert,atob," ++
  "back,blur,btoa,captureEvents,clearImmediate,clearInterval,clearTimeout,close,confirm," ++
  "disableExternalCapture,dispatchEvent,dump,enableExternalCapture,escape,find,focus,forward," ++
  "GeckoActiveXObject,getAttention,getAttentionWithCycleCount,getComputedStyle,getSelection," ++
  "home,matchMedia,maximize,minimize,moveBy,moveTo,mozRequestAnimationFrame,open,openDialog," ++
  "postMessage,print,prompt,QueryInterface,releaseEvents,removeEventListener,resizeBy,resizeTo," ++
  "restore,routeEvent,scroll,scrollBy,scrollByLines,scrollByPages,scrollTo,setCursor," ++
  "setImmediate,setInterval,setResizable,setTimeout,showModalDialog,sizeToContent,stop,unescape," ++
  "updateCommands,XPCNativeWrapper,XPCSafeJSObjectWrapper,onabort,onbeforeunload,onblur," ++
  "onchange,onclick,onclose,oncontextmenu,ondevicemotion,ondeviceorientation,ondragdrop,onerror," ++
  "onfocus,onhashchange,onkeydown,onkeypress,onkeyup,onload,onmousedown,onmousemove,onmouseout," ++
  "onmouseover,onmouseup,onmozbeforepaint,onpaint,onpopstate,onreset,onresize,onscroll,onselect," ++
  "onsubmit,onunload,onpageshow,onpagehide,Image,Option,Worker,Event,Range,File,FileReader,Blob," ++
  "BlobBuilder,Attr,CDATASection,CharacterData,Comment,console,DocumentFragment,DocumentType," ++
  "DomConfiguration,DOMError,DOMErrorHandler,DOMException,DOMImplementation," ++
  "DOMImplementationList,DOMImplementationRegistry,DOMImplementationSource,DOMLocator,DOMObject," ++
  "DOMString,DOMStringList,DOMTimeStamp,DOMUserData,Entity,EntityReference,MediaQueryList," ++
  "MediaQueryListListener,NameList,NamedNodeMap,Node,NodeFilter,NodeIterator,NodeList,Notation," ++
  "Plugin,PluginArray,ProcessingInstruction,SharedWorker,Text,TimeRanges,Treewalker,TypeInfo," ++
  "UserDataHandler,Worker,WorkerGlobalScope,HTMLDocument,HTMLElement,HTMLAnchorElement," ++
  "HTMLAppletElement,HTMLAudioElement,HTMLAreaElement,HTMLBaseElement,HTMLBaseFontElement," ++
  "HTMLBodyElement,HTMLBRElement,HTMLButtonElement,HTMLCanvasElement,HTMLDirectoryElement," ++
  "HTMLDivElement,HTMLDListElement,HTMLEmbedElement,HTMLFieldSetElement,HTMLFontElement," ++
  "HTMLFormElement,HTMLFrameElement,HTMLFrameSetElement,HTMLHeadElement,HTMLHeadingElement," ++
  "HTMLHtmlElement,HTMLHRElement,HTMLIFrameElement,HTMLImageElement,HTMLInputElement," ++
  "HTMLKeygenElement,HTMLLabelElement,HTMLLIElement,HTMLLinkElement,HTMLMapElement," ++
  "HTMLMenuElement,HTMLMetaElement,HTMLModElement,HTMLObjectElement,HTMLOListElement," ++
  "HTMLOptGroupElement,HTMLOptionElement,HTMLOutputElement,HTMLParagraphElement," ++
  "HTMLParamElement,HTMLPreElement,HTMLQuoteElement,HTMLScriptElement,HTMLSelectElement," ++
  "HTMLSourceElement,HTMLSpanElement,HTMLStyleElement,HTMLTableElement,HTMLTableCaptionElement," ++
  "HTMLTableCellElement,HTMLTableDataCellElement,HTMLTableHeaderCellElement,HTMLTableColElement," ++
  "HTMLTableRowElement,HTMLTableSectionElement,HTMLTextAreaElement,HTMLTimeElement," ++
  "HTMLTitleElement,HTMLTrackElement,HTMLUListElement,HTMLUnknownElement,HTMLVideoElement," ++
  "HTMLCanvasElement,CanvasRenderingContext2D,CanvasGradient,CanvasPattern,TextMetrics," ++
  "ImageData,CanvasPixelArray,HTMLAudioElement,HTMLVideoElement,NotifyAudioAvailableEvent," ++
  "HTMLCollection,HTMLAllCollection,HTMLFormControlsCollection,HTMLOptionsCollection," ++
  "HTMLPropertiesCollection,DOMTokenList,DOMSettableTokenList,DOMStringMap,RadioNodeList," ++
  "SVGDocument,SVGElement,SVGAElement,SVGAltGlyphElement,SVGAltGlyphDefElement," ++
  "SVGAltGlyphItemElement,SVGAnimationElement,SVGAnimateElement,SVGAnimateColorElement," ++
  "SVGAnimateMotionElement,SVGAnimateTransformElement,SVGSetElement,SVGCircleElement," ++
  "SVGClipPathElement,SVGColorProfileElement,SVGCursorElement,SVGDefsElement,SVGDescElement," ++
  "SVGEllipseElement,SVGFilterElement,SVGFilterPrimitiveStandardAttributes,SVGFEBlendElement," ++
  "SVGFEColorMatrixElement,SVGFEComponentTransferElement,SVGFECompositeElement," ++
  "SVGFEConvolveMatrixElement,SVGFEDiffuseLightingElement,SVGFEDisplacementMapElement," ++
  "SVGFEDistantLightElement,SVGFEFloodElement,SVGFEGaussianBlurElement,SVGFEImageElement," ++
  "SVGFEMergeElement,SVGFEMergeNodeElement,SVGFEMorphologyElement,SVGFEOffsetElement," ++
  "SVGFEPointLightElement,SVGFESpecularLightingElement,SVGFESpotLightElement,SVGFETileElement," ++
  "SVGFETurbulenceElement,SVGComponentTransferFunctionElement,SVGFEFuncRElement," ++
  "SVGFEFuncGElement,SVGFEFuncBElement,SVGFEFuncAElement,SVGFontElement,SVGFontFaceElement," ++
  "SVGFontFaceFormatElement,SVGFontFaceNameElement,SVGFontFaceSrcElement,SVGFontFaceUriElement," ++
  "SVGForeignObjectElement,SVGGElement,SVGGlyphElement,SVGGlyphRefElement,SVGGradientElement," ++
  "SVGLinearGradientElement,SVGRadialGradientElement,SVGHKernElement,SVGImageElement," ++
  "SVGLineElement,SVGMarkerElement,SVGMaskElement,SVGMetadataElement,SVGMissingGlyphElement," ++
  "SVGMPathElement,SVGPathElement,SVGPatternElement,SVGPolylineElement,SVGPolygonElement," ++
  "SVGRectElement,SVGScriptElement,SVGStopElement,SVGStyleElement,SVGSVGElement," ++
  "SVGSwitchElement,SVGSymbolElement,SVGTextElement,SVGTextPathElement,SVGTitleElement," ++
  "SVGTRefElement,SVGTSpanElement,SVGUseElement,SVGViewElement,SVGVKernElement,SVGAngle," ++
  "SVGColor,SVGICCColor,SVGElementInstance,SVGElementInstanceList,SVGLength,SVGLengthList," ++
  "SVGMatrix,SVGNumber,SVGNumberList,SVGPaint,SVGPoint,SVGPointList,SVGPreserveAspectRatio," ++
  "SVGRect,SVGStringList,SVGTransform,SVGTransformList,SVGAnimatedAngle,SVGAnimatedBoolean," ++
  "SVGAnimatedEnumeration,SVGAnimatedInteger,SVGAnimatedLength,SVGAnimatedLengthList," ++
  "SVGAnimatedNumber,SVGAnimatedNumberList,SVGAnimatedPreserveAspectRatio,SVGAnimatedRect," ++
  "SVGAnimatedString,SVGAnimatedTransformList,SVGPathSegList,SVGPathSeg,SVGPathSegArcAbs," ++
  "SVGPathSegArcRel,SVGPathSegClosePath,SVGPathSegCurvetoCubicAbs,SVGPathSegCurvetoCubicRel," ++
  "SVGPathSegCurvetoCubicSmoothAbs,SVGPathSegCurvetoCubicSmoothRel," ++
  "SVGPathSegCurvetoQuadraticAbs,SVGPathSegCurvetoQuadraticRel," ++
  "SVGPathSegCurvetoQuadraticSmoothAbs,SVGPathSegCurvetoQuadraticSmoothRel,SVGPathSegLinetoAbs," ++
  "SVGPathSegLinetoHorizontalAbs,SVGPathSegLinetoHorizontalRel,SVGPathSegLinetoRel," ++
  "SVGPathSegLinetoVerticalAbs,SVGPathSegLinetoVerticalRel,SVGPathSegMovetoAbs," ++
  "SVGPathSegMovetoRel,ElementTimeControl,TimeEvent,SVGAnimatedPathData,SVGAnimatedPoints," ++
  "SVGColorProfileRule,SVGCSSRule,SVGExternalResourcesRequired,SVGFitToViewBox,SVGLangSpace," ++
  "SVGLocatable,SVGRenderingIntent,SVGStylable,SVGTests,SVGTextContentElement," ++
  "SVGTextPositioningElement,SVGTransformable,SVGUnitTypes,SVGURIReference,SVGViewSpec," ++
  "SVGZoomAndPan"

/-- The reserved words. -/
def defaultReserved : List String := Text.splitOn ',' reservedList

end Blockwright.Names
