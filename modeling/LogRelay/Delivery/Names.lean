/-!
# Names that the services accept

Checked before anything is asked of a service. Lengths are in bytes.
-/

namespace LogRelay

/-- Between 1 and `most` bytes long, and made of the characters `allowed`. -/
def Text.isName (most : Nat) (allowed : Char → Bool) (s : String) : Bool :=
  1 ≤ s.utf8ByteSize && s.utf8ByteSize ≤ most && s.toList.all allowed

namespace Names

def isLogGroup : String → Bool :=
  Text.isName 512 fun c => c.isAlphanum || c ∈ ['.', '-', '_', '/', '#']

def isLogStream : String → Bool := Text.isName 512 fun c => c ∉ [':', '*']

def isStream : String → Bool := Text.isName 128 fun c => c.isAlphanum || c ∈ ['.', '-', '_']

def isTopic : String → Bool := Text.isName 256 fun c => c.isAlphanum || c ∈ ['-', '_']

/-- Printable ASCII that does not start with a blank. -/
def isSubject (s : String) : Bool :=
  Text.isName 100 (fun c => 0x20 ≤ c.toNat && c.toNat < 0x7f) s && s.toList.head? != some ' '

end Names

end LogRelay
