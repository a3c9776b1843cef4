/-!
# Spans

Where a declaration or a problem is: a byte range of one source file, whose start is not after its
stop. `Span.between?` makes a span of any two ends and refuses the ones in the wrong order.
-/

namespace Binder

/-- A byte range of a source file. -/
structure Span where
  /-- The number of the file. -/
  file : UInt32
  start : UInt32
  stop : UInt32
  start_le_stop : start ≤ stop
deriving DecidableEq

namespace Span

/-- The empty range at the beginning of the first file. -/
def origin : Span := ⟨0, 0, 0, by decide⟩

instance : Inhabited Span := ⟨origin⟩

/-- The range from `start` to `stop`, if `start` is not after `stop`. -/
def between? (file start stop : UInt32) : Option Span :=
  if h : start ≤ stop then some ⟨file, start, stop, h⟩ else none

/-- How the file numbered `file` is shown in messages. -/
def fileText (file : UInt32) : String := "file#" ++ toString file

/-- How the number of a file is shown as a handle. -/
def fileDebugText (file : UInt32) : String := "FileId(" ++ toString file ++ ")"

/-- How a span is shown in messages: file, start and stop. -/
def text (s : Span) : String :=
  fileText s.file ++ ":" ++ toString s.start ++ ".." ++ toString s.stop

theorem between?_eq_none_iff {file start stop : UInt32} :
    between? file start stop = none ↔ stop < start := by
  unfold between?
  split <;> rename_i h
  · exact ⟨nofun, fun h' => absurd h (UInt32.not_le.2 h')⟩
  · exact ⟨fun _ => UInt32.not_le.1 h, fun _ => rfl⟩

end Span

end Binder
