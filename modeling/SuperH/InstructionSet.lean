import SuperH.InstructionTable

/-!
# The instruction set of the SH-2

Every instruction with the shape of its operands, grouped by format.
-/
namespace SuperH

def instructions : List Entry :=
  [
   -- 0 format
   ⟨"CLRT", [], 0x0008, .zero⟩,
   ⟨"CLRMAC", [], 0x0028, .zero⟩,
   ⟨"DIV0U", [], 0x0019, .zero⟩,
   ⟨"NOP", [], 0x0009, .zero⟩,
   ⟨"RTE", [], 0x002B, .zero⟩,
   ⟨"RTS", [], 0x000B, .zero⟩,
   ⟨"SETT", [], 0x0018, .zero⟩,
   ⟨"SLEEP", [], 0x001B, .zero⟩,
   -- n format, direct register
   ⟨"CMP/PL", [.reg], 0x4015, .n⟩,
   ⟨"CMP/PZ", [.reg], 0x4011, .n⟩,
   ⟨"DT", [.reg], 0x4010, .n⟩,
   ⟨"MOVT", [.reg], 0x0029, .n⟩,
   ⟨"ROTL", [.reg], 0x4004, .n⟩,
   ⟨"ROTR", [.reg], 0x4005, .n⟩,
   ⟨"ROTCL", [.reg], 0x4024, .n⟩,
   ⟨"ROTCR", [.reg], 0x4025, .n⟩,
   ⟨"SHAL", [.reg], 0x4020, .n⟩,
   ⟨"SHAR", [.reg], 0x4021, .n⟩,
   ⟨"SHLL", [.reg], 0x4000, .n⟩,
   ⟨"SHLR", [.reg], 0x4001, .n⟩,
   ⟨"SHLL2", [.reg], 0x4008, .n⟩,
   ⟨"SHLR2", [.reg], 0x4009, .n⟩,
   ⟨"SHLL8", [.reg], 0x4018, .n⟩,
   ⟨"SHLR8", [.reg], 0x4019, .n⟩,
   ⟨"SHLL16", [.reg], 0x4028, .n⟩,
   ⟨"SHLR16", [.reg], 0x4029, .n⟩,
   -- n format, store control/system register
   ⟨"STC", [.sys .sr, .reg], 0x0002, .n⟩,
   ⟨"STC", [.sys .gbr, .reg], 0x0012, .n⟩,
   ⟨"STC", [.sys .vbr, .reg], 0x0022, .n⟩,
   ⟨"STS", [.sys .mach, .reg], 0x000A, .n⟩,
   ⟨"STS", [.sys .macl, .reg], 0x001A, .n⟩,
   ⟨"STS", [.sys .pr, .reg], 0x002A, .n⟩,
   -- n format, indirect register
   ⟨"TAS.B", [.indirect], 0x401B, .n⟩,
   -- n format, pre-decrement
   ⟨"STC.L", [.sys .sr, .preDec], 0x4003, .n⟩,
   ⟨"STC.L", [.sys .gbr, .preDec], 0x4013, .n⟩,
   ⟨"STC.L", [.sys .vbr, .preDec], 0x4023, .n⟩,
   ⟨"STS.L", [.sys .mach, .preDec], 0x4002, .n⟩,
   ⟨"STS.L", [.sys .macl, .preDec], 0x4012, .n⟩,
   ⟨"STS.L", [.sys .pr, .preDec], 0x4022, .n⟩,
   -- m format, load control/system register
   ⟨"LDC", [.reg, .sys .sr], 0x400E, .m⟩,
   ⟨"LDC", [.reg, .sys .gbr], 0x401E, .m⟩,
   ⟨"LDC", [.reg, .sys .vbr], 0x402E, .m⟩,
   ⟨"LDS", [.reg, .sys .mach], 0x400A, .m⟩,
   ⟨"LDS", [.reg, .sys .macl], 0x401A, .m⟩,
   ⟨"LDS", [.reg, .sys .pr], 0x402A, .m⟩,
   -- m format, indirect register
   ⟨"JMP", [.indirect], 0x402B, .m⟩,
   ⟨"JSR", [.indirect], 0x400B, .m⟩,
   -- m format, post-increment
   ⟨"LDC.L", [.postInc, .sys .sr], 0x4007, .m⟩,
   ⟨"LDC.L", [.postInc, .sys .gbr], 0x4017, .m⟩,
   ⟨"LDC.L", [.postInc, .sys .vbr], 0x4027, .m⟩,
   ⟨"LDS.L", [.postInc, .sys .mach], 0x4006, .m⟩,
   ⟨"LDS.L", [.postInc, .sys .macl], 0x4016, .m⟩,
   ⟨"LDS.L", [.postInc, .sys .pr], 0x4026, .m⟩,
   -- m format, PC relative with Rm
   ⟨"BRAF", [.reg], 0x0023, .m⟩,
   ⟨"BSRF", [.reg], 0x0003, .m⟩,
   -- nm format, direct register
   ⟨"ADD", [.reg, .reg], 0x300C, .nm⟩,
   ⟨"ADDC", [.reg, .reg], 0x300E, .nm⟩,
   ⟨"ADDV", [.reg, .reg], 0x300F, .nm⟩,
   ⟨"AND", [.reg, .reg], 0x2009, .nm⟩,
   ⟨"CMP/EQ", [.reg, .reg], 0x3000, .nm⟩,
   ⟨"CMP/HS", [.reg, .reg], 0x3002, .nm⟩,
   ⟨"CMP/GE", [.reg, .reg], 0x3003, .nm⟩,
   ⟨"CMP/HI", [.reg, .reg], 0x3006, .nm⟩,
   ⟨"CMP/GT", [.reg, .reg], 0x3007, .nm⟩,
   ⟨"CMP/STR", [.reg, .reg], 0x200C, .nm⟩,
   ⟨"DIV1", [.reg, .reg], 0x3004, .nm⟩,
   ⟨"DIV0S", [.reg, .reg], 0x2007, .nm⟩,
   ⟨"DMULS.L", [.reg, .reg], 0x300D, .nm⟩,
   ⟨"DMULU.L", [.reg, .reg], 0x3005, .nm⟩,
   ⟨"EXTS.B", [.reg, .reg], 0x600E, .nm⟩,
   ⟨"EXTS.W", [.reg, .reg], 0x600F, .nm⟩,
   ⟨"EXTU.B", [.reg, .reg], 0x600C, .nm⟩,
   ⟨"EXTU.W", [.reg, .reg], 0x600D, .nm⟩,
   ⟨"MOV", [.reg, .reg], 0x6003, .nm⟩,
   ⟨"MUL.L", [.reg, .reg], 0x0007, .nm⟩,
   ⟨"MULS.W", [.reg, .reg], 0x200F, .nm⟩,
   ⟨"MULU.W", [.reg, .reg], 0x200E, .nm⟩,
   ⟨"NEG", [.reg, .reg], 0x600B, .nm⟩,
   ⟨"NEGC", [.reg, .reg], 0x600A, .nm⟩,
   ⟨"NOT", [.reg, .reg], 0x6007, .nm⟩,
   ⟨"OR", [.reg, .reg], 0x200B, .nm⟩,
   ⟨"SUB", [.reg, .reg], 0x3008, .nm⟩,
   ⟨"SUBC", [.reg, .reg], 0x300A, .nm⟩,
   ⟨"SUBV", [.reg, .reg], 0x300B, .nm⟩,
   ⟨"SWAP.B", [.reg, .reg], 0x6008, .nm⟩,
   ⟨"SWAP.W", [.reg, .reg], 0x6009, .nm⟩,
   ⟨"TST", [.reg, .reg], 0x2008, .nm⟩,
   ⟨"XOR", [.reg, .reg], 0x200A, .nm⟩,
   ⟨"XTRCT", [.reg, .reg], 0x200D, .nm⟩,
   -- nm format, indirect register
   ⟨"MOV.B", [.reg, .indirect], 0x2000, .nm⟩,
   ⟨"MOV.W", [.reg, .indirect], 0x2001, .nm⟩,
   ⟨"MOV.L", [.reg, .indirect], 0x2002, .nm⟩,
   ⟨"MOV.B", [.indirect, .reg], 0x6000, .nm⟩,
   ⟨"MOV.W", [.indirect, .reg], 0x6001, .nm⟩,
   ⟨"MOV.L", [.indirect, .reg], 0x6002, .nm⟩,
   -- nm format, multiply and accumulate
   ⟨"MAC.L", [.postInc, .postInc], 0x000F, .nm⟩,
   ⟨"MAC.W", [.postInc, .postInc], 0x400F, .nm⟩,
   -- nm format, post-increment
   ⟨"MOV.B", [.postInc, .reg], 0x6004, .nm⟩,
   ⟨"MOV.W", [.postInc, .reg], 0x6005, .nm⟩,
   ⟨"MOV.L", [.postInc, .reg], 0x6006, .nm⟩,
   -- nm format, pre-decrement
   ⟨"MOV.B", [.reg, .preDec], 0x2004, .nm⟩,
   ⟨"MOV.W", [.reg, .preDec], 0x2005, .nm⟩,
   ⟨"MOV.L", [.reg, .preDec], 0x2006, .nm⟩,
   -- nm format, indexed register
   ⟨"MOV.B", [.reg, .indexReg], 0x0004, .nm⟩,
   ⟨"MOV.W", [.reg, .indexReg], 0x0005, .nm⟩,
   ⟨"MOV.L", [.reg, .indexReg], 0x0006, .nm⟩,
   ⟨"MOV.B", [.indexReg, .reg], 0x000C, .nm⟩,
   ⟨"MOV.W", [.indexReg, .reg], 0x000D, .nm⟩,
   ⟨"MOV.L", [.indexReg, .reg], 0x000E, .nm⟩,
   -- md format
   ⟨"MOV.B", [.dispReg, .reg], 0x8400, .md⟩,
   ⟨"MOV.W", [.dispReg, .reg], 0x8500, .md⟩,
   -- nd4 format
   ⟨"MOV.B", [.reg, .dispReg], 0x8000, .nd4⟩,
   ⟨"MOV.W", [.reg, .dispReg], 0x8100, .nd4⟩,
   -- nmd format
   ⟨"MOV.L", [.reg, .dispReg], 0x1000, .nmd⟩,
   ⟨"MOV.L", [.dispReg, .reg], 0x5000, .nmd⟩,
   -- d format, GBR indirect with displacement
   ⟨"MOV.B", [.reg, .dispGbr], 0xC000, .d⟩,
   ⟨"MOV.W", [.reg, .dispGbr], 0xC100, .d⟩,
   ⟨"MOV.L", [.reg, .dispGbr], 0xC200, .d⟩,
   ⟨"MOV.B", [.dispGbr, .reg], 0xC400, .d⟩,
   ⟨"MOV.W", [.dispGbr, .reg], 0xC500, .d⟩,
   ⟨"MOV.L", [.dispGbr, .reg], 0xC600, .d⟩,
   -- d format, PC relative with displacement
   ⟨"MOVA", [.dispPc, .reg], 0xC700, .d⟩,
   -- d format, PC relative branch
   ⟨"BF", [.label], 0x8B00, .d⟩,
   ⟨"BF/S", [.label], 0x8F00, .d⟩,
   ⟨"BT", [.label], 0x8900, .d⟩,
   ⟨"BT/S", [.label], 0x8D00, .d⟩,
   -- d12 format
   ⟨"BRA", [.label], 0xA000, .d12⟩,
   ⟨"BSR", [.label], 0xB000, .d12⟩,
   -- nd8 format
   ⟨"MOV.W", [.dispPc, .reg], 0x9000, .nd8⟩,
   ⟨"MOV.L", [.dispPc, .reg], 0xD000, .nd8⟩,
   -- i format, GBR indirect indexed
   ⟨"AND.B", [.imm, .indexGbr], 0xCD00, .i⟩,
   ⟨"OR.B", [.imm, .indexGbr], 0xCF00, .i⟩,
   ⟨"TST.B", [.imm, .indexGbr], 0xCC00, .i⟩,
   ⟨"XOR.B", [.imm, .indexGbr], 0xCE00, .i⟩,
   -- i format, immediate with R0
   ⟨"AND", [.imm, .reg], 0xC900, .i⟩,
   ⟨"CMP/EQ", [.imm, .reg], 0x8800, .i⟩,
   ⟨"OR", [.imm, .reg], 0xCB00, .i⟩,
   ⟨"TST", [.imm, .reg], 0xC800, .i⟩,
   ⟨"XOR", [.imm, .reg], 0xCA00, .i⟩,
   -- i format, exception vector
   ⟨"TRAPA", [.imm], 0xC300, .i⟩,
   -- ni format
   ⟨"ADD", [.imm, .reg], 0x7000, .ni⟩,
   ⟨"MOV", [.imm, .reg], 0xE000, .ni⟩]

def sh2 : Table :=
  ⟨instructions⟩

end SuperH
