import ClojureLayout.Text.Lines
import ClojureLayout.Text.Utf8

/-!
# What a scanner reads

A source is read one character at a time. A read gives a character, or nothing (the end of the
input, as far as this read can tell), or fails. After the last listed read every further one gives
nothing.
-/

namespace ClojureLayout

/-- Why a read failed. -/
inductive ReadFault where
  /-- The device that holds the source failed. -/
  | device (message : String)
  /-- The source is not UTF-8. -/
  | encoding (fault : Text.Utf8.Fault)
  /-- The reader met a value it cannot use. -/
  | invalidValue (message : String)
  /-- The reader broke down in some other way. The signal that ends an iteration is not meant: who
      iterates over the tokens could not tell it from their end. -/
  | breakdown (message : String)
deriving DecidableEq

namespace ReadFault

/-- What went wrong, in words. -/
def message : ReadFault → String
  | device message => message
  | encoding fault => fault.message
  | invalidValue message => message
  | breakdown message => message

/-- The failures that belong to the source, and that a scan reports as it reports a scan error. -/
def isOfSource : ReadFault → Bool
  | device _ | encoding _ => true
  | invalidValue _ | breakdown _ => false

end ReadFault

/-- The outcome of reading one character. Characters are Unicode scalar values, so a source holds no
    surrogate that stands alone. -/
inductive Read where
  | char (c : Char)
  | nothing
  | fault (cause : ReadFault)
deriving DecidableEq

namespace Read

/-- The reads of a text held in memory. -/
def ofChars (cs : List Char) : List Read := cs.map .char

/-- The reads of a text held in memory. -/
def ofText (s : String) : List Read := ofChars s.toList

/-- The text that is certain once the data has been decoded but not closed: a carriage return at its
    end waits for what follows it. -/
def settled (cs : List Char) : List Char :=
  if cs.getLast? = some '\r' then cs.dropLast else cs

/-- The reads of a text given as UTF-8 bytes, all decoded at the first read, every line end
    delivered as a line feed. Bytes that are wrong whatever follows make that first read fail. A
    sequence that the data cuts short fails only when all that comes before it has been read, and
    counts its position from its own first byte. -/
def ofBytes (bytes : List UInt8) : List Read :=
  match Text.Utf8.decodeFrom 0 bytes with
  | ⟨cs, .complete⟩ => ofChars (Text.unifyNewlines cs)
  | ⟨cs, .truncated _ first length⟩ =>
    ofChars (Text.unifyNewlines (settled cs)) ++ [.fault (.encoding ⟨first, 0, length, .endOfData⟩)]
  | ⟨_, .invalid bad⟩ => [.fault (.encoding bad)]

end Read

end ClojureLayout
