import Mos6502.Descriptor
import Mathlib.Data.List.Nodup

/-! The opcode matrix read backwards. Each fact about the matrix is checked entry by entry, once,
and stated for all opcodes. -/
namespace Mos6502

namespace Mnemonic

def isBranch : Mnemonic → Bool
  | .bcc | .bcs | .beq | .bmi | .bne | .bpl | .bvc | .bvs => true
  | _ => false

theorem length_text (mnemonic : Mnemonic) : mnemonic.text.toList.length = 3 := by
  have checked : ∀ m ∈ all, m.text.toList.length = 3 := by decide +kernel
  exact checked mnemonic mnemonic.mem_all

theorem text_injective {m n : Mnemonic} (same : m.text = n.text) : m = n := by
  have distinct : (all.map text).Nodup := by decide +kernel
  exact List.inj_on_of_nodup_map distinct m.mem_all n.mem_all same

end Mnemonic

namespace Descriptor

theorem of_all_opcodes {P : UInt8 → Prop} (checked : ∀ n < 256, P (UInt8.ofNat n)) :
    ∀ opcode, P opcode := by
  intro opcode
  have here := checked opcode.toNat opcode.toNat_lt
  rwa [UInt8.ofNat_toNat] at here

/- The first opcode with that meaning. -/
def opcode? (d : Descriptor) : Option UInt8 :=
  ((List.range 256).map UInt8.ofNat).find? fun opcode => ofOpcode opcode == d

theorem opcode?_ofOpcode : ∀ opcode, (ofOpcode opcode).isIllegal = false →
    (ofOpcode opcode).opcode? = some opcode := by
  apply of_all_opcodes
  decide +kernel

/-- An official instruction has one opcode only. -/
theorem ofOpcode_injective {a b : UInt8} (legal : (ofOpcode a).isIllegal = false)
    (same : ofOpcode a = ofOpcode b) : a = b := by
  have legal_b : (ofOpcode b).isIllegal = false := same ▸ legal
  have found := opcode?_ofOpcode a legal
  rw [same, opcode?_ofOpcode b legal_b] at found
  exact (Option.some.inj found).symm

theorem ofOpcode_of_isIllegal : ∀ opcode, (ofOpcode opcode).isIllegal = true →
    ofOpcode opcode = illegal := by
  apply of_all_opcodes
  decide +kernel

theorem relative_iff_isBranch : ∀ opcode, (ofOpcode opcode).mode = .relative ↔
    (ofOpcode opcode).mnemonic.isBranch = true := by
  apply of_all_opcodes
  decide +kernel

end Descriptor

end Mos6502
