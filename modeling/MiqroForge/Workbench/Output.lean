import MiqroForge.Library.PyText
import MiqroForge.Library.Steps
import Mathlib.Data.List.TakeDrop

/-!
The output of a process in `WorkbenchProcessRuntime._run_process`: two reader tasks, the wait for
the exit of the process, and the end of the readers behind it.
-/

namespace MiqroForge.Workbench

open PyText

/-! ## Readers -/

abbrev Bytes := List UInt8

inductive Stream where
  | stdout
  | stderr
  deriving DecidableEq

/-- How the pipe cuts what the process writes to a stream; no read but the last one is empty. -/
structure Chunking where
  chunks : List Bytes
  nonempty : ∀ chunk ∈ chunks, chunk ≠ []

/-- What the process writes. -/
def Chunking.bytes (c : Chunking) : Bytes := c.chunks.flatten

structure OutputChunk where
  stream : Stream
  data : Bytes
  capReached : Bool := false

inductive TaskPhase where
  /-- In `await stream.read(4096)`. -/
  | reading
  /-- In `await on_chunk(...)`. -/
  | inCallback
  | done
  | cancelled
  deriving DecidableEq

/-- A `_read_stream` task with the buffer of its handle and what it has not read yet. -/
structure Reader where
  pending : List Bytes
  buffer : Bytes := []
  capReached : Bool := false
  phase : TaskPhase := .reading

/-- One chunk of `_read_stream`, and what is reported of it. -/
def Reader.accept (cap : Option Nat) (r : Reader) (chunk : Bytes) :
    Reader × Option (Bytes × Bool) :=
  if r.capReached then (r, none)
  else if cap.any fun cap => cap < r.buffer.length + chunk.length then
    let remaining := cap.getD 0 - r.buffer.length
    if 0 < remaining then
      let accepted := chunk.take remaining
      ({ r with buffer := r.buffer ++ accepted, capReached := true }, some (accepted, true))
    else ({ r with capReached := true }, some ([], true))
  else ({ r with buffer := r.buffer ++ chunk }, some (chunk, false))

/-! ## A process -/

structure ProcessExit where
  exitCode : Int
  stdout : Text
  stderr : Text
  stdoutCapReached : Bool
  stderrCapReached : Bool
  terminationReason : Text

inductive Main where
  /-- In `await proc.wait()`. -/
  | waiting
  /-- The reader of `next` is ended next. -/
  | stopping (code : Int) (next : Stream)
  | returned (exit : ProcessExit)

structure Run where
  readers : Stream → Reader
  log : List OutputChunk := []
  /-- `handle.stdout_cap_reached` and `handle.stderr_cap_reached`. -/
  capReached : Stream → Bool := fun _ => false
  main : Main := .waiting

inductive Event where
  | read (stream : Stream)
  /-- The callback returns. -/
  | resume (stream : Stream)
  | eof (stream : Stream)
  /-- The process has ended by itself and its wait returns. -/
  | exited (code : Int)
  /-- The next reader is ended: it is cancelled unless it is done. -/
  | stop
  deriving DecidableEq

/-- A process that writes `stdout` and `stderr`. -/
def start (stdout stderr : Chunking) : Run where
  readers
    | .stdout => { pending := stdout.chunks }
    | .stderr => { pending := stderr.chunks }

section Steps
variable (cap : Option Nat) (onChunk : Bool) (decode : Bytes → Text)

def Run.setReader (st : Run) (s : Stream) (r : Reader) : Run :=
  { st with readers := Function.update st.readers s r }

/-- The reader of `s` gets a chunk. -/
def Run.read (st : Run) (s : Stream) (chunk : Bytes) (rest : List Bytes) : Run :=
  let (r, reported) := Reader.accept cap { st.readers s with pending := rest } chunk
  let given := if onChunk then reported else none
  { st.setReader s { r with phase := if given.isSome then .inCallback else .reading } with
    log := st.log ++ (given.map fun out => ⟨s, out.1, out.2⟩).toList }

/-- The reader of `s` is ended and its result taken. -/
def Run.stop (st : Run) (s : Stream) : Run :=
  let r := st.readers s
  if r.phase = .done then
    { st with capReached := Function.update st.capReached s r.capReached }
  else st.setReader s { r with phase := .cancelled }

def Run.exit (st : Run) (code : Int) : ProcessExit where
  exitCode := code
  stdout := decode (st.readers .stdout).buffer
  stderr := decode (st.readers .stderr).buffer
  stdoutCapReached := st.capReached .stdout
  stderrCapReached := st.capReached .stderr
  terminationReason := "exited".toList

def step (st : Run) : Event → Option Run
  | .read s =>
    match (st.readers s).phase, (st.readers s).pending with
    | .reading, chunk :: rest => some (st.read cap onChunk s chunk rest)
    | _, _ => none
  | .resume s =>
    if (st.readers s).phase = .inCallback then
      some (st.setReader s { st.readers s with phase := .reading })
    else none
  | .eof s =>
    match (st.readers s).phase, (st.readers s).pending with
    | .reading, [] => some (st.setReader s { st.readers s with phase := .done })
    | _, _ => none
  | .exited code =>
    match st.main with
    | .waiting => some { st with main := .stopping code .stdout }
    | _ => none
  | .stop =>
    match st.main with
    | .stopping code .stdout => some { st.stop .stdout with main := .stopping code .stderr }
    | .stopping code .stderr =>
      let st := st.stop .stderr
      some { st with main := .returned (st.exit decode code) }
    | _ => none

end Steps

/-! ## Complete output -/

section Complete
variable (cap : Option Nat)

/-- The first bytes, up to the cap. -/
def clip (written : Bytes) : Bytes := cap.elim written fun cap => written.take cap

/-- Bytes are dropped. -/
def exceeds (written : Bytes) : Bool := cap.any fun cap => cap < written.length

/-- What is given to `on_chunk` for a stream. -/
def chunksOf (s : Stream) (log : List OutputChunk) : List OutputChunk :=
  log.filter fun out => out.stream = s

/-- The output of a stream, where `written` was written: the buffer and its text, and the chunks
if they are asked for. -/
structure Complete (onChunk : Bool) (decode : Bytes → Text) (written : Bytes) (st : Run)
    (s : Stream) (text : Text) : Prop where
  buffer : (st.readers s).buffer = clip cap written
  decoded : text = decode (clip cap written)
  chunks : onChunk = true → (chunksOf s st.log).flatMap OutputChunk.data = clip cap written
  capReached : onChunk = true → (chunksOf s st.log).countP OutputChunk.capReached =
    if exceeds cap written then 1 else 0

/-- A reader that can be ended: what it has not read is nothing, or is beyond the cap and
reported. -/
def Settled (onChunk : Bool) (r : Reader) : Prop :=
  r.pending = [] ∨ r.capReached = true ∨ onChunk = false ∧ cap = some r.buffer.length

/-- A reader is ended only where it can be. -/
def Drained (onChunk : Bool) (st : Run) : Event → Prop
  | .stop => ∀ code s, st.main = .stopping code s → Settled cap onChunk (st.readers s)
  | _ => True

end Complete

end MiqroForge.Workbench
