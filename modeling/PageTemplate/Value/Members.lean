import PageTemplate.Value.Basic

/-!
# PageTemplate.Value.Members

The members that values inherit, by the family of the value. Some members are listed by name only:
they are there, but calling them is not possible.
-/

namespace PageTemplate

/-- Values that inherit the same members. -/
inductive Family where
  | text | number | bool | bigint | symbol | function | array | map | set | date | handle | plain
  deriving Repr, DecidableEq

namespace Members

def listed (members : List (String × Fn)) : List (Text × Fn) :=
  members.map fun (name, f) => (Text.ofString name, f)

def unlisted (names : List String) : List (Text × Fn) :=
  names.map fun name => (Text.ofString name, .unlisted (Text.ofString name))

/-- The members of every object. -/
def ofObjects : List (Text × Fn) :=
  listed [("hasOwnProperty", .object .hasOwnProperty),
    ("propertyIsEnumerable", .object .propertyIsEnumerable), ("toString", .object .toText),
    ("valueOf", .object .valueOf)] ++
  unlisted ["isPrototypeOf", "toLocaleString"]

def ofTexts : List (Text × Fn) :=
  listed [("at", .text .itemAt), ("charAt", .text .charAt), ("charCodeAt", .text .charCodeAt),
    ("codePointAt", .text .codePointAt), ("concat", .text .concat), ("endsWith", .text .endsWith),
    ("includes", .text .includes), ("indexOf", .text .indexOf),
    ("lastIndexOf", .text .lastIndexOf), ("padEnd", .text .padEnd), ("padStart", .text .padStart),
    ("repeat", .text .replicate), ("replace", .text .replace), ("replaceAll", .text .replaceAll),
    ("slice", .text .slice), ("split", .text .split), ("startsWith", .text .startsWith),
    ("substring", .text .substring), ("toLowerCase", .text .toLowerCase),
    ("toString", .text .toText), ("toUpperCase", .text .toUpperCase), ("trim", .text .trim),
    ("trimEnd", .text .trimEnd), ("trimRight", .text .trimEnd), ("trimStart", .text .trimStart),
    ("trimLeft", .text .trimStart), ("valueOf", .text .valueOf)] ++
  unlisted ["anchor", "big", "blink", "bold", "fixed", "fontcolor", "fontsize", "isWellFormed",
    "italics", "link", "localeCompare", "match", "matchAll", "normalize", "search", "small",
    "strike", "sub", "substr", "sup", "toLocaleLowerCase", "toLocaleUpperCase", "toWellFormed"]

def ofArrays : List (Text × Fn) :=
  listed [("at", .array .itemAt), ("concat", .array .concat), ("every", .array .every),
    ("fill", .array .fill), ("filter", .array .filter), ("find", .array .find),
    ("findIndex", .array .findIndex), ("findLast", .array .findLast),
    ("findLastIndex", .array .findLastIndex), ("flat", .array .flat), ("flatMap", .array .flatMap),
    ("forEach", .array .forEach), ("includes", .array .includes), ("indexOf", .array .indexOf),
    ("join", .array .join), ("lastIndexOf", .array .lastIndexOf), ("map", .array .map),
    ("pop", .array .pop), ("push", .array .push), ("reduce", .array .reduce),
    ("reduceRight", .array .reduceRight), ("reverse", .array .reverse), ("shift", .array .shift),
    ("slice", .array .slice), ("some", .array .some), ("sort", .array .sort),
    ("splice", .array .splice), ("toString", .array .toText), ("unshift", .array .unshift)] ++
  unlisted ["copyWithin", "entries", "keys", "toLocaleString", "toReversed", "toSorted",
    "toSpliced", "values", "with"]

def ofMaps : List (Text × Fn) :=
  listed [("clear", .map .clear), ("delete", .map .delete), ("forEach", .map .forEach),
    ("get", .map .get), ("has", .map .has), ("set", .map .set)] ++
  unlisted ["entries", "keys", "values"]

def ofSets : List (Text × Fn) :=
  listed [("add", .set .add), ("clear", .set .clear), ("delete", .set .delete),
    ("forEach", .set .forEach), ("has", .set .has)] ++
  unlisted ["difference", "entries", "intersection", "isDisjointFrom", "isSubsetOf",
    "isSupersetOf", "keys", "symmetricDifference", "union", "values"]

def ofNumbers : List (Text × Fn) :=
  listed [("toFixed", .number .toFixed), ("toString", .number .toText),
    ("valueOf", .number .valueOf)] ++
  unlisted ["toExponential", "toLocaleString", "toPrecision"]

def ofDates : List (Text × Fn) :=
  listed [("getTime", .date .getTime), ("getFullYear", .date .getFullYear),
    ("getUTCFullYear", .date .getFullYear), ("getMonth", .date .getMonth),
    ("getUTCMonth", .date .getMonth), ("getDate", .date .getDate), ("getUTCDate", .date .getDate),
    ("getDay", .date .getDay), ("getUTCDay", .date .getDay), ("getHours", .date .getHours),
    ("getUTCHours", .date .getHours), ("getMinutes", .date .getMinutes),
    ("getUTCMinutes", .date .getMinutes), ("getSeconds", .date .getSeconds),
    ("getUTCSeconds", .date .getSeconds), ("getMilliseconds", .date .getMilliseconds),
    ("getUTCMilliseconds", .date .getMilliseconds), ("toISOString", .date .toISOText),
    ("toJSON", .date .toJSON), ("toString", .date .toText), ("valueOf", .date .valueOf)] ++
  unlisted ["getTimezoneOffset", "getYear", "setDate", "setFullYear", "setHours",
    "setMilliseconds", "setMinutes", "setMonth", "setSeconds", "setTime", "setUTCDate",
    "setUTCFullYear", "setUTCHours", "setUTCMilliseconds", "setUTCMinutes", "setUTCMonth",
    "setUTCSeconds", "setYear", "toDateString", "toGMTString", "toLocaleDateString",
    "toLocaleString", "toLocaleTimeString", "toTimeString", "toUTCString"]

def ofHandles : List (Text × Fn) :=
  listed [("addClass", .handle .addClass), ("getAttribute", .handle .getAttribute),
    ("hasAttribute", .handle .hasAttribute), ("populateFrom", .handle .populateFrom),
    ("removeAttribute", .handle .removeAttribute), ("setAttribute", .handle .setAttribute),
    ("unwrap", .handle .unwrap)]

def ofFunctions : List (Text × Fn) :=
  listed [("toString", .simple .functionToText)] ++ unlisted ["apply", "bind", "call"]

def ofSymbols : List (Text × Fn) :=
  listed [("toString", .simple .symbolToText), ("valueOf", .simple .symbolValueOf)]

def ofBools : List (Text × Fn) :=
  listed [("toString", .simple .boolToText), ("valueOf", .simple .boolValueOf)]

def ofBigints : List (Text × Fn) :=
  listed [("toString", .simple .bigintToText), ("valueOf", .simple .bigintValueOf)] ++
  unlisted ["toLocaleString"]

/-- The functions of `Math`. -/
def ofMath : List (Text × Fn) :=
  listed [("abs", .math .abs), ("ceil", .math .ceil), ("floor", .math .floor),
    ("max", .math .max), ("min", .math .min), ("pow", .math .pow), ("round", .math .round),
    ("sign", .math .sign), ("sqrt", .math .sqrt), ("trunc", .math .trunc)] ++
  unlisted ["acos", "acosh", "asin", "asinh", "atan", "atan2", "atanh", "cbrt", "clz32", "cos",
    "cosh", "exp", "expm1", "fround", "hypot", "imul", "log", "log10", "log1p", "log2", "random",
    "sin", "sinh", "tan", "tanh"]

/-- The numbers of `Math`. -/
def mathConstants : List (Text × Float) :=
  [("E", 2.718281828459045), ("LN10", 2.302585092994046), ("LN2", 0.6931471805599453),
    ("LOG10E", 0.4342944819032518), ("LOG2E", 1.4426950408889634), ("PI", 3.141592653589793),
    ("SQRT1_2", 0.7071067811865476), ("SQRT2", 1.4142135623730951)].map
    fun (name, x) => (Text.ofString name, x)

def ofJson : List (Text × Fn) :=
  listed [("parse", .json .parse), ("stringify", .json .stringify)] ++
  unlisted ["isRawJSON", "rawJSON"]

/-- The functions that belong to a constructor. -/
def ofConstructor : Constructor → List (Text × Fn)
  | .array => listed [("from", .global .arrayFrom), ("isArray", .global .arrayIs),
      ("of", .global .arrayOf)] ++ unlisted ["fromAsync"]
  | .bool => []
  | .date => listed [("UTC", .global .dateUTC)] ++ unlisted ["now", "parse"]
  | .number => listed [("isFinite", .global .numberIsFinite),
      ("isInteger", .global .numberIsInteger), ("isNaN", .global .numberIsNaN),
      ("isSafeInteger", .global .numberIsSafeInteger), ("parseFloat", .global .parseFloat),
      ("parseInt", .global .parseInt)]
  | .text => listed [("fromCharCode", .global .fromCharCode),
      ("fromCodePoint", .global .fromCodePoint)] ++ unlisted ["raw"]

/-- The numbers that belong to `Number`. -/
def numberConstants : List (Text × Float) :=
  [("EPSILON", 2.220446049250313e-16), ("MAX_SAFE_INTEGER", 9007199254740991.0),
    ("MAX_VALUE", 1.7976931348623157e308), ("MIN_SAFE_INTEGER", -9007199254740991.0),
    ("MIN_VALUE", 5e-324), ("NEGATIVE_INFINITY", -Number.infinity),
    ("NaN", Number.nan), ("POSITIVE_INFINITY", Number.infinity)].map
    fun (name, x) => (Text.ofString name, x)

/-- A property that is computed. Reading it calls one function on the object, setting it another;
without that one it cannot be set. -/
structure Accessor where
  getter : Fn
  setter : Option Fn

end Members

/-- The computed properties of a family. -/
def Family.accessors (f : Family) : List (Text × Members.Accessor) :=
  let computed : List (String × Members.Accessor) :=
    match f with
    | .map => [("size", ⟨.map .size, none⟩)]
    | .set => [("size", ⟨.set .size, none⟩)]
    | .symbol => [("description", ⟨.simple .symbolDescription, none⟩)]
    | .handle => [("tagName", ⟨.handle .readTag, none⟩),
        ("textContent", ⟨.handle .readText, some (.handle .writeText)⟩)]
    | _ => []
  computed.map fun (name, a) => (Text.ofString name, a)

/-- The members of a family, without those of all objects. -/
def Family.members : Family → List (Text × Fn)
  | .text => Members.ofTexts
  | .number => Members.ofNumbers
  | .bool => Members.ofBools
  | .bigint => Members.ofBigints
  | .symbol => Members.ofSymbols
  | .function => Members.ofFunctions
  | .array => Members.ofArrays
  | .map => Members.ofMaps
  | .set => Members.ofSets
  | .date => Members.ofDates
  | .handle => Members.ofHandles
  | .plain => []

end PageTemplate
