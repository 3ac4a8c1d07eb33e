import NyaSniProxy.Reload.WatchFile

/-!
# Fetching the configuration

The thread of a fetch reads the configuration from its file or its URL, up to a limit. A file is
read through `take`, one byte beyond the limit. The body of a response comes in chunks, and the
response may say its length before. A chunk comes whole, however long it is, and is put behind the
others only if they are no longer than the limit together.

The fetch is one loop with a state for each place where it reads. What it accepts does not depend on
how the bytes arrive: the text is the whole file or the whole body, or there is none.
-/

namespace NyaSniProxy

open Text Interaction

/-- Where the fetch is: at its start, in `read_to_end`, or in the loop over the chunks. -/
inductive FetchPlace where
  | start
  | file (path : FsPath) (limit : Nat) (buf : Bytes)
  | body (url : Bytes) (buf : Bytes)

/-- The buffer of the fetch. A chunk that has just come is not in it yet. -/
def FetchPlace.buf : FetchPlace → Bytes
  | .start => []
  | .file _ _ buf | .body _ buf => buf

section Limit

variable (maxBytes : Nat)

end Limit

/-! ## The source -/

section Turns

variable {maxBytes : Nat} {faulty : Prop} {response : Response} {source : ConfigSource}
  {content w buf : Bytes} {path : FsPath} {limit : Nat} {url : Bytes}

end Turns

end NyaSniProxy
