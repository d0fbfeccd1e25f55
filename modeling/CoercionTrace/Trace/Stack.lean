import CoercionTrace.Table
import CoercionTrace.Trace.Key

/-!
# Call stacks

What each running call has recorded about its own slots, innermost call first. An argument that a
call reads is kept by its caller. Main statement: following the local sources of a slot ends, since
each entry that is met is met once (`CallStack.size_without_lt`, `CallStack.size_owner_le`).
-/

namespace CoercionTrace

structure Frame where
  callId : TraceId
  entries : Table Slot TraceItem := .empty
  calleeReturn : Option TraceItem := none
  pendingArguments : Option Nat := none
  deriving DecidableEq, Inhabited

/-- The running calls: the innermost one, and those around it, nearest first. -/
structure CallStack where
  top : Frame
  below : List Frame := []
  deriving DecidableEq, Inhabited

/-- A recorded entry that a history passes through, with the call that keeps it. -/
structure Hop where
  callId : TraceId
  slot : Slot
  value : Value
  deriving DecidableEq, Inhabited

inductive TraceError
  | noCaller (argument : Nat)
  | underflow
  deriving DecidableEq, Inhabited

def TraceError.message : TraceError → String
  | .noCaller argument =>
    "trace chain desynchronized: argument #" ++ toString argument ++
      " referenced from the bottom frame"
  | .underflow => "trace stack underflow: leaveCall without a matching enterCall"

namespace CallStack

def frames (s : CallStack) : List Frame := s.top :: s.below

def depth (s : CallStack) : Nat := s.below.length + 1

def caller? (s : CallStack) : Option CallStack :=
  match s.below with
  | [] => none
  | f :: rest => some ⟨f, rest⟩

/-- The stack whose innermost call keeps a slot that the innermost call of `s` reads. -/
def owner (s : CallStack) : Slot → Except TraceError CallStack
  | .argument i =>
    match s.caller? with
    | some t => .ok t
    | none => .error (.noCaller i)
  | _ => .ok s

def entryCount : List Frame → Nat
  | [] => 0
  | f :: rest => f.entries.size + entryCount rest

def size (s : CallStack) : Nat := entryCount s.frames

def without (s : CallStack) (slot : Slot) : CallStack :=
  { s with top := { s.top with entries := s.top.entries.erase slot } }

theorem size_owner_le {s t : CallStack} {slot : Slot} (h : s.owner slot = .ok t) :
    t.size ≤ s.size := by
  obtain ⟨top, below⟩ := s
  cases slot <;> cases below <;> simp [owner, caller?] at h <;> subst h <;> simp [size, frames, entryCount]

theorem size_without_lt {s : CallStack} {slot : Slot} {item : TraceItem}
    (h : s.top.entries.find? slot = some item) : (s.without slot).size < s.size := by
  simpa [size, frames, without, entryCount] using s.top.entries.size_erase_lt h

/-- The entries behind a slot of the innermost call, newest first, and the key at which they end.
They end at a source that stays valid, or where nothing is recorded. An entry that was met is left
out of what follows, so a history that comes back to it ends there. -/
def chase (s : CallStack) (slot : Slot) : Except TraceError (List Hop × TraceKey) :=
  match _hf : s.top.entries.find? slot with
  | none => .ok ([], .of s.top.callId slot)
  | some item =>
    let hop : Hop := ⟨s.top.callId, slot, item.value⟩
    if item.source.isVolatile then
      match _ho : (s.without slot).owner item.source.slot with
      | .error e => .error e
      | .ok t =>
        match chase t item.source.slot with
        | .error e => .error e
        | .ok (hops, terminal) => .ok (hop :: hops, terminal)
    else .ok ([hop], item.source)
termination_by s.size
decreasing_by exact Nat.lt_of_le_of_lt (size_owner_le _ho) (size_without_lt _hf)

def history (s : CallStack) (slot : Slot) : Except TraceError (List Hop × TraceKey) :=
  match s.owner slot with
  | .error e => .error e
  | .ok t => t.chase slot

end CallStack

end CoercionTrace
