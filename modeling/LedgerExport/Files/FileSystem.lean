import LedgerExport.Text.Encoding
import LedgerExport.Text.Numeral

/-! # File systems

What programs do with files: they ask whether a path leads to a plain file, read what it leads to,
and write. Each of these may fail for reasons of its own, so a plain file need not be readable.
-/
namespace LedgerExport.Files

abbrev Bytes := List UInt8

/-- Why a file cannot be read or written, in the words of the system. -/
structure FileFault where
  message : Text
  deriving Repr, DecidableEq

namespace FileFault

/-- A fault with a number of the system's own. -/
def numbered (what : Text) (code : Nat) : FileFault :=
  ⟨what ++ " (os error ".toList ++ Text.decimal code ++ [')']⟩

def missing : FileFault := numbered "No such file or directory".toList 2
def notDirectory : FileFault := numbered "Not a directory".toList 20
def isDirectory : FileFault := numbered "Is a directory".toList 21
def nameTooLong : FileFault := numbered "File name too long".toList 36
def nullInPath : FileFault := ⟨"file name contained an unexpected NUL byte".toList⟩
def notText : FileFault := ⟨"stream did not contain valid UTF-8".toList⟩

end FileFault

/-- What can be seen of the files under their paths. -/
structure FileReader where
  /-- Whether the path leads to a plain file. -/
  isFile : Text → Bool
  read : Text → Except FileFault Bytes

def FileReader.text (files : FileReader) (path : Text) : Except FileFault Text := do
  match Text.decodeUtf8? (← files.read path) with
  | some t => return t
  | none => throw .notText

class FileSystem (σ : Type) where
  reader : σ → FileReader
  /-- Writes a file; a write that fails may leave its traces as well. -/
  write : σ → Text → Bytes → Except FileFault Unit × σ

export FileSystem (reader write)

end LedgerExport.Files
