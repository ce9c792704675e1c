import RecordMap.Files.Disk

/-! What ends an action as a whole, where a source that cannot be used would only be noted. -/

namespace RecordMap

inductive Interruption where
  /-- It cannot be told whether a file stands at a path. -/
  | blocked (path : Text) (fault : Files.Fault)
  | nullInPath
  | noModelsDirectory
  | noDatabaseName
  | repeatedNumber
  | repeatedIsolation
  | numberOutOfRange
  /-- Databases of a scheme are known, but nothing is there to open them. -/
  | missingDriver (scheme : Text)
  /-- A scheme names something else in the place of a driver. -/
  | notADriver (scheme : Text)
  /-- A name that an error would quote is no text. -/
  | undecodableName
deriving DecidableEq, Repr

namespace Interruption

def message? : Interruption → Option Text
  | nullInPath => some "embedded null byte".toList
  | repeatedIsolation => some
      ("isolation_level string must be '', 'DEFERRED', 'IMMEDIATE', or ".toList ++
        "'EXCLUSIVE'".toList)
  | _ => none

end Interruption

/-- Why an action has no result: for a cause of its own kind, or because it is interrupted. -/
inductive Failure (ε : Type) where
  | cause (e : ε)
  | interrupted (i : Interruption)
deriving DecidableEq, Repr

namespace Failure

def map {ε ε' : Type} (f : ε → ε') : Failure ε → Failure ε'
  | cause e => cause (f e)
  | interrupted i => interrupted i

end Failure

end RecordMap
