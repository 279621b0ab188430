import UnitOfWork.Scripted.Database

/-! Application code whose behaviour is data: hooks, listeners and an interceptor, each a list of things to
do when it is called. -/

namespace UnitOfWork.Scripted

inductive Edit where
  | value (index : Nat) (value : AttributeValue)
  | identifier (id : Option Identifier)

def Edit.apply (x : Instance) : Edit → Instance
  | .value index held => x.setValue index held
  | .identifier id => { x with id }

def hook (edits : List Edit) : Hook where
  run _ h heap := [(h, edits.foldl Edit.apply (heap.read h))]

def interceptor (opinions : List (String × Option Bool)) : Interceptor where
  isTransient _ h heap := (opinions.lookup (heap.entity h)).join

inductive ListenerAct where
  /-- In the state that is being loaded. -/
  | set (index : Nat) (value : AttributeValue)
  | push (value : AttributeValue)
  | pop
  /-- In the instance. -/
  | write (index : Nat) (value : AttributeValue)
  | fail (e : Error)

def perform : List ListenerAct → List AttributeValue → Instance → Except Error (List AttributeValue) × Instance
  | [], state, x => (.ok state, x)
  | .set index value :: rest, state, x => perform rest (state.set index value) x
  | .push value :: rest, state, x => perform rest (state ++ [value]) x
  | .pop :: rest, state, x => perform rest state.dropLast x
  | .write index value :: rest, state, x => perform rest state (x.setValue index value)
  | .fail e :: _, _, x => (.error e, x)

structure ListenerScript where
  only : Option Identifier := none
  times : Option Nat := none
  acts : List ListenerAct := []
deriving Inhabited

namespace ListenerScript

def wants (script : ListenerScript) (id : Identifier) : Bool := script.only.all (· == id)

def acting (script : ListenerScript) (before : List Identifier) (id : Identifier) : Bool :=
  script.wants id && script.times.all fun times => before.countP script.wants < times

def preLoad (script : ListenerScript) (position : Nat) : PreLoadListener where
  call journal event heap :=
    if script.acting (journal.filterMap (Call.preLoadedBy? position)) event.id then
      let (answer, x) := perform script.acts event.state (heap.read event.entity)
      (answer, [(event.entity, x)])
    else (.ok event.state, [])

def postLoad (script : ListenerScript) (position : Nat) : PostLoadListener where
  call journal event heap :=
    if script.acting (journal.filterMap (Call.postLoadedBy? position)) event.id then
      let (answer, x) := perform script.acts [] (heap.read event.entity)
      (answer.map fun _ => (), [(event.entity, x)])
    else (.ok (), [])

end ListenerScript

structure Cast where
  writer : WriterScript := {}
  opinions : Option (List (String × Option Bool)) := none
  preLoad : List ListenerScript := []
  postLoad : List ListenerScript := []
deriving Inhabited

/-- Whether a call made after others concerned the one it was made to: listeners that do not act and an
interceptor without opinions pass over it. -/
def Cast.notices (cast : Cast) (before : Journal) : Call → Bool
  | .intercept _ => cast.opinions.isSome
  | .preLoad position _ id _ _ _ =>
    cast.preLoad[position]?.any fun script => script.acting (before.filterMap (Call.preLoadedBy? position)) id
  | .postLoad position _ id _ _ =>
    cast.postLoad[position]?.any fun script => script.acting (before.filterMap (Call.postLoadedBy? position)) id
  | _ => true

def Cast.noticed (cast : Cast) : Journal → List Call → List Call
  | _, [] => []
  | before, call :: rest =>
    (if cast.notices before call then [call] else []) ++ cast.noticed (before ++ [call]) rest

end UnitOfWork.Scripted
