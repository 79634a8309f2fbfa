import ClassScript.Bytes

/-!
The cyclic redundancy check of archives: 32 bits, lowest bit first.
-/

namespace ClassScript.Checksum

def polynomial : UInt32 := 0xedb88320

/-- Shifts so many bits out of the register. -/
def shift : Nat → UInt32 → UInt32
  | 0, r => r
  | n + 1, r => shift n (if r &&& 1 = 1 then (r >>> 1) ^^^ polynomial else r >>> 1)

def step (r : UInt32) (b : UInt8) : UInt32 := shift 8 (r ^^^ b.toUInt32)

def of (bs : Bytes) : UInt32 := bs.foldl step 0xffffffff ^^^ 0xffffffff

end ClassScript.Checksum
