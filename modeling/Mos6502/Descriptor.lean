import Mos6502.AddressingMode
import Mos6502.Mnemonic

namespace Mos6502

structure Descriptor where
  mnemonic : Mnemonic
  mode : AddressingMode
deriving DecidableEq, Repr

namespace Descriptor

def length (descriptor : Descriptor) : Nat :=
  descriptor.mode.length

def isIllegal (descriptor : Descriptor) : Bool :=
  descriptor.mnemonic == .illegal

def illegal : Descriptor :=
  ⟨.illegal, .implied⟩

/-- The opcode matrix: a row for each high half, a column for each low half of an opcode. -/
def matrix : Vector (Vector Descriptor 16) 16 := #v[
  #v[⟨.brk, .implied⟩, ⟨.ora, .indirectX⟩, illegal, illegal, illegal, ⟨.ora, .zeroPage⟩,
    ⟨.asl, .zeroPage⟩, illegal, ⟨.php, .implied⟩, ⟨.ora, .immediate⟩, ⟨.asl, .accumulator⟩,
    illegal, illegal, ⟨.ora, .absolute⟩, ⟨.asl, .absolute⟩, illegal],
  #v[⟨.bpl, .relative⟩, ⟨.ora, .indirectY⟩, illegal, illegal, illegal, ⟨.ora, .zeroPageX⟩,
    ⟨.asl, .zeroPageX⟩, illegal, ⟨.clc, .implied⟩, ⟨.ora, .absoluteY⟩, illegal, illegal, illegal,
    ⟨.ora, .absoluteX⟩, ⟨.asl, .absoluteX⟩, illegal],
  #v[⟨.jsr, .absolute⟩, ⟨.and, .indirectX⟩, illegal, illegal, ⟨.bit, .zeroPage⟩,
    ⟨.and, .zeroPage⟩, ⟨.rol, .zeroPage⟩, illegal, ⟨.plp, .implied⟩, ⟨.and, .immediate⟩,
    ⟨.rol, .accumulator⟩, illegal, ⟨.bit, .absolute⟩, ⟨.and, .absolute⟩, ⟨.rol, .absolute⟩,
    illegal],
  #v[⟨.bmi, .relative⟩, ⟨.and, .indirectY⟩, illegal, illegal, illegal, ⟨.and, .zeroPageX⟩,
    ⟨.rol, .zeroPageX⟩, illegal, ⟨.sec, .implied⟩, ⟨.and, .absoluteY⟩, illegal, illegal, illegal,
    ⟨.and, .absoluteX⟩, ⟨.rol, .absoluteX⟩, illegal],
  #v[⟨.rti, .implied⟩, ⟨.eor, .indirectX⟩, illegal, illegal, illegal, ⟨.eor, .zeroPage⟩,
    ⟨.lsr, .zeroPage⟩, illegal, ⟨.pha, .implied⟩, ⟨.eor, .immediate⟩, ⟨.lsr, .accumulator⟩,
    illegal, ⟨.jmp, .absolute⟩, ⟨.eor, .absolute⟩, ⟨.lsr, .absolute⟩, illegal],
  #v[⟨.bvc, .relative⟩, ⟨.eor, .indirectY⟩, illegal, illegal, illegal, ⟨.eor, .zeroPageX⟩,
    ⟨.lsr, .zeroPageX⟩, illegal, ⟨.cli, .implied⟩, ⟨.eor, .absoluteY⟩, illegal, illegal, illegal,
    ⟨.eor, .absoluteX⟩, ⟨.lsr, .absoluteX⟩, illegal],
  #v[⟨.rts, .implied⟩, ⟨.adc, .indirectX⟩, illegal, illegal, illegal, ⟨.adc, .zeroPage⟩,
    ⟨.ror, .zeroPage⟩, illegal, ⟨.pla, .implied⟩, ⟨.adc, .immediate⟩, ⟨.ror, .accumulator⟩,
    illegal, ⟨.jmp, .indirect⟩, ⟨.adc, .absolute⟩, ⟨.ror, .absolute⟩, illegal],
  #v[⟨.bvs, .relative⟩, ⟨.adc, .indirectY⟩, illegal, illegal, illegal, ⟨.adc, .zeroPageX⟩,
    ⟨.ror, .zeroPageX⟩, illegal, ⟨.sei, .implied⟩, ⟨.adc, .absoluteY⟩, illegal, illegal, illegal,
    ⟨.adc, .absoluteX⟩, ⟨.ror, .absoluteX⟩, illegal],
  #v[illegal, ⟨.sta, .indirectX⟩, illegal, illegal, ⟨.sty, .zeroPage⟩, ⟨.sta, .zeroPage⟩,
    ⟨.stx, .zeroPage⟩, illegal, ⟨.dey, .implied⟩, illegal, ⟨.txa, .implied⟩, illegal,
    ⟨.sty, .absolute⟩, ⟨.sta, .absolute⟩, ⟨.stx, .absolute⟩, illegal],
  #v[⟨.bcc, .relative⟩, ⟨.sta, .indirectY⟩, illegal, illegal, ⟨.sty, .zeroPageX⟩,
    ⟨.sta, .zeroPageX⟩, ⟨.stx, .zeroPageY⟩, illegal, ⟨.tya, .implied⟩, ⟨.sta, .absoluteY⟩,
    ⟨.txs, .implied⟩, illegal, illegal, ⟨.sta, .absoluteX⟩, illegal, illegal],
  #v[⟨.ldy, .immediate⟩, ⟨.lda, .indirectX⟩, ⟨.ldx, .immediate⟩, illegal, ⟨.ldy, .zeroPage⟩,
    ⟨.lda, .zeroPage⟩, ⟨.ldx, .zeroPage⟩, illegal, ⟨.tay, .implied⟩, ⟨.lda, .immediate⟩,
    ⟨.tax, .implied⟩, illegal, ⟨.ldy, .absolute⟩, ⟨.lda, .absolute⟩, ⟨.ldx, .absolute⟩, illegal],
  #v[⟨.bcs, .relative⟩, ⟨.lda, .indirectY⟩, illegal, illegal, ⟨.ldy, .zeroPageX⟩,
    ⟨.lda, .zeroPageX⟩, ⟨.ldx, .zeroPageY⟩, illegal, ⟨.clv, .implied⟩, ⟨.lda, .absoluteY⟩,
    ⟨.tsx, .implied⟩, illegal, ⟨.ldy, .absoluteX⟩, ⟨.lda, .absoluteX⟩, ⟨.ldx, .absoluteY⟩,
    illegal],
  #v[⟨.cpy, .immediate⟩, ⟨.cmp, .indirectX⟩, illegal, illegal, ⟨.cpy, .zeroPage⟩,
    ⟨.cmp, .zeroPage⟩, ⟨.dec, .zeroPage⟩, illegal, ⟨.iny, .implied⟩, ⟨.cmp, .immediate⟩,
    ⟨.dex, .implied⟩, illegal, ⟨.cpy, .absolute⟩, ⟨.cmp, .absolute⟩, ⟨.dec, .absolute⟩, illegal],
  #v[⟨.bne, .relative⟩, ⟨.cmp, .indirectY⟩, illegal, illegal, illegal, ⟨.cmp, .zeroPageX⟩,
    ⟨.dec, .zeroPageX⟩, illegal, ⟨.cld, .implied⟩, ⟨.cmp, .absoluteY⟩, illegal, illegal, illegal,
    ⟨.cmp, .absoluteX⟩, ⟨.dec, .absoluteX⟩, illegal],
  #v[⟨.cpx, .immediate⟩, ⟨.sbc, .indirectX⟩, illegal, illegal, ⟨.cpx, .zeroPage⟩,
    ⟨.sbc, .zeroPage⟩, ⟨.inc, .zeroPage⟩, illegal, ⟨.inx, .implied⟩, ⟨.sbc, .immediate⟩,
    ⟨.nop, .implied⟩, illegal, ⟨.cpx, .absolute⟩, ⟨.sbc, .absolute⟩, ⟨.inc, .absolute⟩, illegal],
  #v[⟨.beq, .relative⟩, ⟨.sbc, .indirectY⟩, illegal, illegal, illegal, ⟨.sbc, .zeroPageX⟩,
    ⟨.inc, .zeroPageX⟩, illegal, ⟨.sed, .implied⟩, ⟨.sbc, .absoluteY⟩, illegal, illegal, illegal,
    ⟨.sbc, .absoluteX⟩, ⟨.inc, .absoluteX⟩, illegal]]

def ofOpcode (opcode : UInt8) : Descriptor :=
  (matrix.get ⟨opcode.toNat / 16, by have := opcode.toNat_lt; omega⟩).get
    ⟨opcode.toNat % 16, by omega⟩

end Descriptor

end Mos6502
