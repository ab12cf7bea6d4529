/-
The sink that programs print to. It may have room for a limited number of bytes: a text that does
not fit is cut, the sink is full from then on, and the print fails. It may also refuse to be
flushed.
-/

namespace Lox

/-- What a sink can refuse to do. -/
inductive Refusal
  | sinkFull
  | flushRefused
  deriving DecidableEq

def Refusal.message : Refusal → String
  | sinkFull => "sink full"
  | flushRefused => "flush refused"

/-- The bytes printed so far, and how many more fit, if there is a limit. -/
structure Sink where
  written : ByteArray
  room : Option Nat
  refusesFlush : Bool

namespace Sink

/-- A sink without a limit. -/
def unlimited : Sink := ⟨.empty, none, false⟩

/-- Prints a text, or the part of it that fits. -/
def print (s : Sink) (text : String) : Except Refusal Unit × Sink :=
  let bytes := text.toUTF8
  match s.room with
  | none => (.ok (), { s with written := s.written ++ bytes })
  | some room =>
    if bytes.size ≤ room then
      (.ok (), { s with written := s.written ++ bytes, room := some (room - bytes.size) })
    else
      (.error .sinkFull, { s with written := s.written ++ bytes.extract 0 room, room := some 0 })

def flush (s : Sink) : Except Refusal Unit :=
  if s.refusesFlush then .error .flushRefused else .ok ()

/-- The bytes printed so far, and the sink without them. -/
def drain (s : Sink) : ByteArray × Sink := (s.written, { s with written := .empty })

end Sink

end Lox
