import PageTemplate.Text.Search

/-!
# PageTemplate.Expr.Names

The names that expressions cannot use: properties that read as undefined and can never be written,
and methods that can never be called.
-/

namespace PageTemplate

namespace Names

/-- Properties that are out of reach. -/
def blockedProperties : List Text :=
  ["constructor", "prototype", "__defineGetter__", "__defineSetter__", "__lookupGetter__",
    "__lookupSetter__", "parentNode", "eval", "Function", "globalThis", "process", "require",
    "Reflect", "Proxy", "__proto__"].map Text.ofString

/-- Methods that could change what a function applies to, or run code later. -/
def blockedMethods : List Text :=
  ["call", "apply", "bind", "defineProperty", "defineProperties", "setPrototypeOf", "setTimeout",
    "setInterval", "setImmediate"].map Text.ofString

/-- A property is out of reach when it is listed, or when its name starts with two underscores. -/
def isBlockedProperty (name : Text) : Bool :=
  blockedProperties.contains name || Text.startsWith name "__"

/-- A method can be called when neither its name nor the property is out of reach. -/
def isBlockedMethod (name : Text) : Bool :=
  blockedMethods.contains name || isBlockedProperty name

end Names

end PageTemplate
