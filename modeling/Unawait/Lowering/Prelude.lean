import Unawait.Text.Basic

/-!
# Functions that lowered code calls

Lowered code calls up to three functions: one that runs a generator as a
coroutine, one that drives an async generator, and one that finds the async
iterator of an object. Their definitions are put behind the lowered code, each on
a line of its own and only if it is needed. The coroutine runner comes with the
generator driver too, because arrows inside a lowered generator may need it.
-/

namespace Unawait

/-- Which constructs were lowered. -/
structure Usage where
  asyncFunction : Bool := false
  asyncGenerator : Bool := false
  forAwait : Bool := false
deriving DecidableEq, Inhabited

namespace Usage

/-- Every construct. -/
def all : Usage := ⟨true, true, true⟩

/-- Whether anything was lowered. -/
def any (usage : Usage) : Bool := usage.asyncFunction || usage.asyncGenerator || usage.forAwait

/-- What one of two uses. -/
def merge (a b : Usage) : Usage :=
  ⟨a.asyncFunction || b.asyncFunction, a.asyncGenerator || b.asyncGenerator,
    a.forAwait || b.forAwait⟩

end Usage

namespace Prelude

/-- Runs a started generator: every yielded value is awaited before the generator
goes on, and the generator's return value settles the promise. -/
def coroutine : String :=
  "function __async(g)\x7breturn new Promise(function(s,j)\x7b"
    ++ "function c(a,x)\x7btry\x7bvar r=g[x?\"throw\":\"next\"](a)\x7dcatch(e)\x7breturn j(e)\x7d"
    ++ "return r.done?s(r.value):Promise.resolve(r.value).then(c,d)\x7d"
    ++ "function d(e)\x7breturn c(e,1)\x7dc()\x7d)\x7d"

/-- Drives a generator as an async iterator. Requests are queued and served one at
a time; a yielded marker is awaited and fed back, any other value settles the
request at the head of the queue. -/
def asyncGenerator : String :=
  "function __asyncGen(g)\x7bvar q=[],T=[\"next\",\"throw\",\"return\"],I=\x7b\x7d;"
    ++ "for(var i=0;i<3;i++)\x7bI[T[i]]=a.bind(0,i)\x7d"
    ++ "var Y=typeof Symbol===\"function\"&&Symbol;"
    ++ "I[Y&&Y.iterator||\"@@iterator\"]=I[Y&&Y.asyncIterator||\"@@asyncIterator\"]="
    ++ "function()\x7breturn this\x7d;"
    ++ "function a(t,v)\x7breturn new Promise(function(s,j)\x7bq.push([s,j,v,t]);"
    ++ "q.length===1&&c(v,t)\x7d)\x7d"
    ++ "function c(v,t)\x7btry\x7bvar r=g[T[t]](v),w=r.value\x7dcatch(e)\x7breturn n(e,1)\x7d"
    ++ "if(!r.done&&w&&typeof w===\"object\"&&\"__await\"in w)\x7b"
    ++ "Promise.resolve(w.__await).then(function(x)\x7bc(x,0)\x7d,function(e)\x7bc(e,1)\x7d)\x7d"
    ++ "else\x7bn(r,0)\x7d\x7d"
    ++ "function n(r,k)\x7bq.shift()[k](r);q.length&&c(q[0][2],q[0][3])\x7d"
    ++ "return I\x7d"

/-- Finds the async iterator of an object, or else its plain one. -/
def asyncIterator : String :=
  "function __asyncIterator(o)\x7bvar Y=typeof Symbol===\"function\"&&Symbol,"
    ++ "i=o[Y&&Y.asyncIterator||\"@@asyncIterator\"]||o[Y&&Y.iterator||\"@@iterator\"];"
    ++ "if(!i)throw new TypeError(\"Object is not AsyncIterable.\");return i.call(o)\x7d"

/-- A definition on a line of its own, if it is needed. -/
def line (needed : Bool) (definition : String) : Text :=
  if needed then '\n' :: definition.toList else []

/-- The definitions that lowered code needs. -/
def render (usage : Usage) : Text :=
  line (usage.asyncFunction || usage.asyncGenerator) coroutine
    ++ line usage.asyncGenerator asyncGenerator
    ++ line usage.forAwait asyncIterator

end Prelude

end Unawait
