import FourCE.Library.Acyclic
import FourCE.Library.Keyed
import FourCE.Python.Str
import Mathlib.Data.Rat.Defs

/-!
# The layout of the map

`drawFlow` of `chat/Overview/View.svelte` up to the positions of the messages, and the walks up from the
current message.  A recursion or a loop of the source gets a number of steps here, and has no result where
they do not suffice.  A message is looked up among the messages alone, not among what objects inherit.
-/

namespace FourCE.Overview

open FourCE.Library FourCE.Python

/-- What stands under `parentId` or `currentId`. -/
inductive Link
  | undefined
  | null
  | id (s : PyStr)
  deriving DecidableEq, Repr

/-- The property that a link names. -/
def Link.key : Link → PyStr
  | .undefined => py "undefined"
  | .null => py "null"
  | .id s => s

/-- The id where the link counts as true. -/
def Link.target : Link → Option PyStr
  | .id s => if s = [] then none else some s
  | _ => none

structure Message where
  parentId : Link
  childrenIds : List PyStr
  deriving Repr

/-- The messages in the order of their keys, some of which may hold nothing. -/
structure History where
  messages : Keyed PyStr (Option Message)
  currentId : Link

namespace History

variable (h : History)

/-- `messages[id]`. -/
def message (id : PyStr) : Option Message := (h.messages.get? id).join

/-! ## Up from the current message -/

/-- `for (let id = link; id && messages[id]; id = messages[id].parentId)`, up to an id that stops it:
the ids that were passed, and the one that stopped it. -/
def climb (stops : PyStr → Bool) : ℕ → Link → Option (List PyStr × Option PyStr)
  | 0, _ => none
  | n + 1, link =>
    match link.target with
    | none => some ([], none)
    | some id => match h.message id with
      | none => some ([], none)
      | some m =>
        if stops id then some ([], some id)
        else (climb stops n m.parentId).map fun r ↦ (id :: r.1, r.2)

def onCurrentPath (target : PyStr) (n : ℕ) : Option Bool :=
  (h.climb (· = target) n h.currentId).map fun r ↦ r.2.isSome

/-- The answer that is unfolded first. -/
def autoExpand (isChainAnswer : PyStr → Bool) (n : ℕ) : Option (Option PyStr) :=
  (h.climb isChainAnswer n h.currentId).map Prod.snd

def onPath (n : ℕ) : Option (List PyStr) := (h.climb (fun _ ↦ false) n h.currentId).map Prod.fst

/-! ## Down from the roots -/

def kids (id : PyStr) : List PyStr :=
  ((h.message id).map Message.childrenIds).getD [] |>.filter fun child ↦ (h.message child).isSome

/-- What `measure` changes: the ids it has seen, and the widths of subtrees. -/
structure Measured where
  seen : List PyStr
  span : Keyed PyStr ℕ

/-- The sum of the widths of the children. -/
def sumOver (measure : PyStr → Measured → Option (ℕ × Measured)) :
    List PyStr → ℕ → Measured → Option (ℕ × Measured)
  | [], sum, m => some (sum, m)
  | child :: children, sum, m => (measure child m).bind fun r ↦ sumOver measure children (sum + r.1) r.2

/-- `measure`: the width of a subtree. -/
def measure : ℕ → PyStr → Measured → Option (ℕ × Measured)
  | 0, _, _ => none
  | n + 1, id, m =>
    if id ∈ m.seen then some (1, m)
    else
      let children := h.kids id
      (sumOver (measure n) children 0 ⟨id :: m.seen, m.span⟩).map fun r ↦
        let base := if children.isEmpty then 1 else r.1
        (base, ⟨r.2.seen, r.2.span.set id base⟩)

/-- `PositionMapEntry`, without the id. -/
structure Position where
  level : ℕ
  position : ℚ
  row : ℕ
  deriving Repr

/-- The place of a card above the first and the last of its children. -/
def centre (positionMap : Keyed PyStr Position) (children : List PyStr) (start : ℕ) : ℚ :=
  match children.head?.bind positionMap.get?, children.getLast?.bind positionMap.get? with
  | some first, some last => (first.position + last.position) / 2
  | _, _ => start

/-- The children side by side, each with the room of its width. -/
def placeAll (place : PyStr → ℕ → Keyed PyStr Position → Option (Keyed PyStr Position)) (span : Keyed PyStr ℕ) :
    List PyStr → ℕ → Keyed PyStr Position → Option (Keyed PyStr Position)
  | [], _, positionMap => some positionMap
  | child :: children, slot, positionMap =>
    (place child slot positionMap).bind (placeAll place span children (slot + (span.get? child).getD 1))

/-- `place`, with the rows that the passes of an answer take up. -/
def place (rowsTaken : PyStr → ℕ) (span : Keyed PyStr ℕ) :
    ℕ → PyStr → ℕ → ℕ → ℕ → Keyed PyStr Position → Option (Keyed PyStr Position)
  | 0, _, _, _, _, _ => none
  | n + 1, id, level, start, row, positionMap =>
    if id ∈ positionMap.keys then some positionMap
    else
      let children := h.kids id
      let childRow := row + 1 + rowsTaken id
      (placeAll (fun child slot ↦ place rowsTaken span n child (level + 1) slot childRow) span children start
        positionMap).map fun positionMap ↦ positionMap.set id ⟨level, centre positionMap children start, row⟩

/-- A message under no other one. -/
def isRoot (id : PyStr) : Bool :=
  match h.message id with
  | none => false
  | some m => (h.message m.parentId.key).isNone

/-- What the loop over the roots changes. -/
structure Drawn where
  span : Keyed PyStr ℕ
  positionMap : Keyed PyStr Position
  nextSlot : ℕ

/-- One root: its width, its places, and where the next one starts. -/
def drawRoot (rowsTaken : PyStr → ℕ) (n : ℕ) (d : Drawn) (id : PyStr) : Option Drawn :=
  if h.isRoot id then
    (h.measure n id ⟨[], d.span⟩).bind fun (_, m) ↦
      (h.place rowsTaken m.span n id 0 d.nextSlot 0 d.positionMap).map fun positionMap ↦
        ⟨m.span, positionMap, d.nextSlot + (m.span.get? id).getD 1⟩
  else some d

/-- `drawFlow` up to the positions. -/
def drawFlow (rowsTaken : PyStr → ℕ) (n : ℕ) : Option Drawn :=
  h.messages.keys.foldlM (h.drawRoot rowsTaken n) ⟨.empty, .empty, 0⟩

end History

end FourCE.Overview
