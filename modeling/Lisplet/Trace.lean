import Lisplet.Store

/-! Events: a record of the only two ways in which evaluation changes a store (§4.4), and the log of
them (§10). `Store.replay` is what an event says was done. -/
namespace Lisplet

variable {ν : Type}

inductive Event (ν : Type) where
  /-- A name was bound in a scope. -/
  | define (scope : ScopeId) (name : String) (value : Value ν)
  /-- A function was called: a scope was created in which its parameters are bound. -/
  | apply (closure : Closure ν) (args : List (Value ν))

/-- Does what an event records. Of a repeated parameter the last argument counts. -/
def Store.replay (st : Store ν) : Event ν → Store ν
  | .define scope name value => st.define scope name value
  | .apply closure args =>
    let id := st.nextId
    (closure.params.zip args).foldl (fun st (x, v) => st.define id x v)
      (st.create closure.scope closure.name)

namespace Event

/-- An event as it is logged. The store supplies the names of scopes. -/
def text (st : Store ν) : Event ν → String
  | .define scope name value =>
    "env: " ++ st.scopeText scope ++ " -- " ++ name ++ " -> " ++ value.shown
  | .apply closure args =>
    "apply: " ++ closure.text ++ " [" ++ " ".intercalate (args.map Value.shown) ++ "]"

/-- A message of the log, ended by a line feed unless it brings its own. -/
def logLine (label message : String) : String :=
  let line := label ++ message
  if line.endsWith '\n' then line else line ++ "\n"

end Event

/-- The log of some events, each message after the same label. -/
def logText (label : String) (st : Store ν) (events : List (Event ν)) : String :=
  String.join (events.map fun e => Event.logLine label (e.text st))

end Lisplet
