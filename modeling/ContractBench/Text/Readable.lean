import ContractBench.Bytes
/-!
# Byte strings for readers

Printable ASCII without quotes and backslashes is shown as quoted text, all else as hex.
-/

namespace ContractBench

namespace Bytes

/-- Whether a byte stands for itself between quotes. -/
def isPlain (b : UInt8) : Bool :=
  0x20 ≤ b && b < 0x7f && b != 0x22 && b != 0x5c

/-- Quoted text if every byte can stand between quotes, hex with its mark otherwise. -/
def readable (b : Bytes) : String :=
  if b.all isPlain then
    String.ofList ('"' :: b.map (fun x => Char.ofNat x.toNat) ++ ['"'])
  else
    "0x" ++ Hex.encode b

example : readable (utf8 "World!") = "\"World!\"" := by decide +kernel
example : readable [0, 255] = "0x00ff" := by decide +kernel

end Bytes

end ContractBench
