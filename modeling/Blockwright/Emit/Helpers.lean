/-!
# Helper functions of generated code

The bodies of the functions that generated code calls, line by line. They go in front of the
program when a block needs them, with the name they are given in place of the mark.
-/

namespace Blockwright.Emit.Helpers

/-- Whether a number is prime. -/
def mathIsPrime : List String := [
  "function \x7bfunctionName\x7d(n) \x7b",
  "  // https://en.wikipedia.org/wiki/Primality_test#Naive_methods",
  "  if (n == 2 || n == 3) \x7b",
  "    return true;",
  "  \x7d",
  "  // False if n is NaN, negative, is 1, or not whole.",
  "  // And false if n is divisible by 2 or 3.",
  "  if (isNaN(n) || n <= 1 || n % 1 != 0 || n % 2 == 0 || n % 3 == 0) \x7b",
  "    return false;",
  "  \x7d",
  "  // Check all the numbers of form 6k +/- 1, up to sqrt(n).",
  "  for (var x = 6; x <= Math.sqrt(n) + 1; x += 6) \x7b",
  "    if (n % (x - 1) == 0 || n % (x + 1) == 0) \x7b",
  "      return false;",
  "    \x7d",
  "  \x7d",
  "  return true;",
  "\x7d"]

/-- The sum of a list. -/
def mathSum : List String := [
  "function \x7bfunctionName\x7d(myList) \x7b",
  "  return myList.reduce(function(x, y) \x7breturn x + y;\x7d, 0);",
  "\x7d"]

/-- The least number of a list. -/
def mathMin : List String := [
  "function \x7bfunctionName\x7d(myList) \x7b",
  "  return Math.min.apply(null, myList);",
  "\x7d"]

/-- The greatest number of a list. -/
def mathMax : List String := [
  "function \x7bfunctionName\x7d(myList) \x7b",
  "  return Math.max.apply(null, myList);",
  "\x7d"]

/-- The mean of a list. -/
def mathMean : List String := [
  "function \x7bfunctionName\x7d(myList) \x7b",
  "  return myList.reduce(function(x, y) \x7breturn x + y;\x7d) / myList.length;",
  "\x7d"]

/-- The median of a list. -/
def mathMedian : List String := [
  "function \x7bfunctionName\x7d(myList) \x7b",
  "  var localList = myList.filter(function (x) \x7breturn typeof x == 'number';\x7d);",
  "  if (!localList.length) return null;",
  "  localList.sort(function(a, b) \x7breturn b - a;\x7d);",
  "  if (localList.length % 2 == 0) \x7b",
  "    return (localList[localList.length / 2 - 1] + localList[localList.length / 2]) / 2;",
  "  \x7d else \x7b",
  "    return localList[(localList.length - 1) / 2];",
  "  \x7d",
  "\x7d"]

/-- The values that a list holds most often. -/
def mathModes : List String := [
  "function \x7bfunctionName\x7d(values) \x7b",
  "  var modes = [];",
  "  var counts = [];",
  "  var maxCount = 0;",
  "  for (var i = 0; i < values.length; i++) \x7b",
  "    var value = values[i];",
  "    var found = false;",
  "    var thisCount;",
  "    for (var j = 0; j < counts.length; j++) \x7b",
  "      if (counts[j][0] === value) \x7b",
  "        thisCount = ++counts[j][1];",
  "        found = true;",
  "        break;",
  "      \x7d",
  "    \x7d",
  "    if (!found) \x7b",
  "      counts.push([value, 1]);",
  "      thisCount = 1;",
  "    \x7d",
  "    maxCount = Math.max(thisCount, maxCount);",
  "  \x7d",
  "  for (var j = 0; j < counts.length; j++) \x7b",
  "    if (counts[j][1] == maxCount) \x7b",
  "        modes.push(counts[j][0]);",
  "    \x7d",
  "  \x7d",
  "  return modes;",
  "\x7d"]

/-- The standard deviation of a list. -/
def mathStandardDeviation : List String := [
  "function \x7bfunctionName\x7d(numbers) \x7b",
  "  var n = numbers.length;",
  "  if (!n) return null;",
  "  var mean = numbers.reduce(function(x, y) \x7breturn x + y;\x7d) / n;",
  "  var variance = 0;",
  "  for (var j = 0; j < n; j++) \x7b",
  "    variance += Math.pow(numbers[j] - mean, 2);",
  "  \x7d",
  "  variance = variance / n;",
  "  return Math.sqrt(variance);",
  "\x7d"]

/-- A random item of a list. -/
def mathRandomList : List String := [
  "function \x7bfunctionName\x7d(list) \x7b",
  "  var x = Math.floor(Math.random() * list.length);",
  "  return list[x];",
  "\x7d"]

/-- A random whole number between two bounds. -/
def mathRandomInt : List String := [
  "function \x7bfunctionName\x7d(a, b) \x7b",
  "  if (a > b) \x7b",
  "    // Swap a and b to ensure a is smaller.",
  "    var c = a;",
  "    a = b;",
  "    b = c;",
  "  \x7d",
  "  return Math.floor(Math.random() * (b - a + 1) + a);",
  "\x7d"]

/-- A list of one value many times. -/
def listsRepeat : List String := [
  "function \x7bfunctionName\x7d(value, n) \x7b",
  "  var array = [];",
  "  for (var i = 0; i < n; i++) \x7b",
  "    array[i] = value;",
  "  \x7d",
  "  return array;",
  "\x7d"]

/-- A random item of a list, perhaps removed from it. -/
def listsGetRandomItem : List String := [
  "function \x7bfunctionName\x7d(list, remove) \x7b",
  "  var x = Math.floor(Math.random() * list.length);",
  "  if (remove) \x7b",
  "    return list.splice(x, 1)[0];",
  "  \x7d else \x7b",
  "    return list[x];",
  "  \x7d",
  "\x7d"]

/-- A comparison to sort by. -/
def listsGetSortCompare : List String := [
  "function \x7bfunctionName\x7d(type, direction) \x7b",
  "  var compareFuncs = \x7b",
  "    \"NUMERIC\": function(a, b) \x7b",
  "        return Number(a) - Number(b); \x7d,",
  "    \"TEXT\": function(a, b) \x7b",
  "        return a.toString() > b.toString() ? 1 : -1; \x7d,",
  "    \"IGNORE_CASE\": function(a, b) \x7b",
  "        return a.toString().toLowerCase() > b.toString().toLowerCase() ? 1 : -1; \x7d,",
  "  \x7d;",
  "  var compare = compareFuncs[type];",
  "  return function(a, b) \x7b return compare(a, b) * direction; \x7d",
  "\x7d"]

/-- A random letter of a text. -/
def textRandomLetter : List String := [
  "function \x7bfunctionName\x7d(text) \x7b",
  "  var x = Math.floor(Math.random() * text.length);",
  "  return text[x];",
  "\x7d"]

/-- A text in title case. -/
def textToTitleCase : List String := [
  "function \x7bfunctionName\x7d(str) \x7b",
  "  return str.replace(/\\S+/g,",
  "      function(txt) \x7breturn txt[0].toUpperCase() + txt.substring(1).toLowerCase();\x7d);",
  "\x7d"]

/-- How often one text stands in another. -/
def textCount : List String := [
  "function \x7bfunctionName\x7d(haystack, needle) \x7b",
  "  if (needle.length === 0) \x7b",
  "    return haystack.length + 1;",
  "  \x7d else \x7b",
  "    return haystack.split(needle).length - 1;",
  "  \x7d",
  "\x7d"]

/-- Replaces one text by another everywhere. -/
def textReplace : List String := [
  "function \x7bfunctionName\x7d(haystack, needle, replacement) \x7b",
  "  needle = needle.replace(/([-()\\[\\]\x7b\x7d+?*.$\\^|,:#<!\\\\])/g,\"\\\\$1\")",
  "                 .replace(/\\x08/g,\"\\\\x08\");",
  "  return haystack.replace(new RegExp(needle, 'g'), replacement);",
  "\x7d"]

/-- A random colour. -/
def colourRandom : List String := [
  "function \x7bfunctionName\x7d() \x7b",
  "  var num = Math.floor(Math.random() * Math.pow(2, 24));",
  "  return '#' + ('00000' + num.toString(16)).substr(-6);",
  "\x7d"]

/-- A colour of three percentages. -/
def colourRgb : List String := [
  "function \x7bfunctionName\x7d(r, g, b) \x7b",
  "  r = Math.max(Math.min(Number(r), 100), 0) * 2.55;",
  "  g = Math.max(Math.min(Number(g), 100), 0) * 2.55;",
  "  b = Math.max(Math.min(Number(b), 100), 0) * 2.55;",
  "  r = ('0' + (Math.round(r) || 0).toString(16)).slice(-2);",
  "  g = ('0' + (Math.round(g) || 0).toString(16)).slice(-2);",
  "  b = ('0' + (Math.round(b) || 0).toString(16)).slice(-2);",
  "  return '#' + r + g + b;",
  "\x7d"]

/-- A colour between two colours. -/
def colourBlend : List String := [
  "function \x7bfunctionName\x7d(c1, c2, ratio) \x7b",
  "  ratio = Math.max(Math.min(Number(ratio), 1), 0);",
  "  var r1 = parseInt(c1.substring(1, 3), 16);",
  "  var g1 = parseInt(c1.substring(3, 5), 16);",
  "  var b1 = parseInt(c1.substring(5, 7), 16);",
  "  var r2 = parseInt(c2.substring(1, 3), 16);",
  "  var g2 = parseInt(c2.substring(3, 5), 16);",
  "  var b2 = parseInt(c2.substring(5, 7), 16);",
  "  var r = Math.round(r1 * (1 - ratio) + r2 * ratio);",
  "  var g = Math.round(g1 * (1 - ratio) + g2 * ratio);",
  "  var b = Math.round(b1 * (1 - ratio) + b2 * ratio);",
  "  r = ('0' + (r || 0).toString(16)).slice(-2);",
  "  g = ('0' + (g || 0).toString(16)).slice(-2);",
  "  b = ('0' + (b || 0).toString(16)).slice(-2);",
  "  return '#' + r + g + b;",
  "\x7d"]

/-! ## Subsequences -/

/-- The positions that a subsequence starts or ends at, as names of helpers spell them. -/
def whereNames : List (String × String) := [
  ("FIRST", "First"), ("LAST", "Last"), ("FROM_START", "FromStart"), ("FROM_END", "FromEnd")]

/-- How a helper computes a position of its sequence from its argument. -/
def sequenceIndex (place argument : String) : String :=
  match place with
  | "FIRST" => "0"
  | "FROM_END" => "sequence.length - 1 - " ++ argument
  | "LAST" => "sequence.length - 1"
  | _ => argument

/-- Whether a position needs an argument. -/
def takesIndex (place : String) : Bool := place = "FROM_START" || place = "FROM_END"

/-- The name that the helper for a pair of positions asks for. -/
def subsequenceName (place1 place2 : String) : String :=
  "subsequence" ++ (whereNames.lookup place1).getD "" ++ (whereNames.lookup place2).getD ""

/-- The body of the helper that slices between a pair of positions. -/
def subsequence (place1 place2 : String) : List String := [
  "function \x7bfunctionName\x7d(sequence" ++ (if takesIndex place1 then ", at1" else "")
    ++ (if takesIndex place2 then ", at2" else "") ++ ") \x7b",
  "  var start = " ++ sequenceIndex place1 "at1" ++ ";",
  "  var end = " ++ sequenceIndex place2 "at2" ++ " + 1;",
  "  return sequence.slice(start, end);",
  "\x7d"]

end Blockwright.Emit.Helpers
