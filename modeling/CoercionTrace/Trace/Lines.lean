import CoercionTrace.Trace.Tracer

/-!
# Histories in words

The history of the value at a key, newest entry first, one line an entry. A history ends where
nothing is recorded, where it comes back to an entry, or after a limit.
-/

namespace CoercionTrace

def historyLimit : Nat := 64

namespace Tracer

/-- The entry at a key, as the innermost call of `s` refers to it, with the call that keeps it. Only
what the running code itself reads can be an argument of its own: any other argument is one that
was passed to the call. -/
def locate (t : Tracer) (s : CallStack) (passed : Bool) (key : TraceKey) :
    Except TraceError (Option TraceItem × Option Nat × CallStack) :=
  match key.scope, key.slot with
  | .identity _, _ => .ok (t.global.find? key, none, s)
  | .here, .result => .ok (s.top.calleeReturn, some s.depth, s)
  | .here, slot =>
    match if passed then s.owner slot else .ok s with
    | .error e => .error e
    | .ok s => .ok (s.top.entries.find? slot, some s.depth, s)

def trailWithin (t : Tracer) :
    Nat → CallStack → Bool → List (Option Nat × TraceKey) → TraceKey → List (TraceKey × TraceItem)
  | 0, _, _, _, _ => []
  | n + 1, s, passed, seen, key =>
    if key.isTraced then
      match t.locate s passed key with
      | .ok (some item, frame, s) =>
        if seen.contains (frame, key) then []
        else (key, item) :: trailWithin t n s true ((frame, key) :: seen) item.source
      | _ => []
    else []

def trail (t : Tracer) (key : TraceKey) : List (TraceKey × TraceItem) :=
  t.trailWithin historyLimit t.stack false [] key

def line (describe : Value → String) (key : TraceKey) (item : TraceItem) : String :=
  key.text ++ " = " ++ describe item.value ++ " <- " ++ item.source.text

def lines (t : Tracer) (describe : Value → String) (key : TraceKey) : List String :=
  (t.trail key).map fun e => line describe e.1 e.2

end Tracer

end CoercionTrace
