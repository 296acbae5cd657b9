import InlineA64.Text.Cursor

/-!
# Operating-system calls

The entry points of the operating system that a data directive can name.
-/

namespace InlineA64

/-- An entry point of the operating system. -/
inductive SystemCall where
  /-- Read a character. -/
  | osrdch
  /-- Write a character. -/
  | oswrch
  /-- Read a key within a time. -/
  | oskey
  /-- Read a line. -/
  | osline
  /-- Run a command line. -/
  | oscli
  /-- Open a file. -/
  | osopen
  /-- Calls with a byte of argument. -/
  | osbyte
  /-- Calls with a block of arguments. -/
  | osword
  /-- Close a file. -/
  | osshut
  /-- Read a byte from a file. -/
  | osbget
  /-- Write a byte to a file. -/
  | osbput
  /-- Read the position in a file. -/
  | getptr
  /-- Set the position in a file. -/
  | setptr
  /-- Read the length of a file. -/
  | getext
deriving DecidableEq, Repr

namespace SystemCall

/-- The calls by name. -/
def named : List (String × SystemCall) :=
  [("osrdch", osrdch), ("oswrch", oswrch), ("oskey", oskey), ("osline", osline), ("oscli", oscli),
    ("osopen", osopen), ("osbyte", osbyte), ("osword", osword), ("osshut", osshut),
    ("osbget", osbget), ("osbput", osbput), ("getptr", getptr), ("setptr", setptr),
    ("getext", getext)]

/-- The name of a call. -/
def name (c : SystemCall) : String :=
  ((named.find? (·.2 == c)).map (·.1)).getD ""

/-- The call whose name starts a text, ignoring case and leading blanks. -/
def ofPrefix? (text : List Byte) : Option SystemCall :=
  ((Cursor.ofBytes text.toArray).keyword? named).1

end SystemCall

end InlineA64
