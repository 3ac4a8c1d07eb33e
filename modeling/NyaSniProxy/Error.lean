import NyaSniProxy.Library.Text

/-!
# Errors

The program reports errors with `anyhow`: a message, or an error of the system or of a library with
messages added by `context`. A formatted message is its literal text and the value it shows.
-/

namespace NyaSniProxy

open Text

/-- What an awaited operation fails with: an error of the system, or a timer that elapsed first. -/
inductive Fault where
  | io
  | elapsed
  deriving DecidableEq

inductive Error where
  | bail (text : String) (value : Bytes)
  | fault (f : Fault)
  | parse
  | context (text : String) (value : Bytes) (source : Error)
  deriving DecidableEq

/-- `bail!` and `anyhow!` without a formatted value. -/
def Error.msg (text : String) : Error := .bail text []

/-- `.context(text)` on an error without a formatted value. -/
def Error.within (text : String) (source : Error) : Error := .context text [] source

end NyaSniProxy
