import RevCPU.Isa.Entry

namespace RevCPU.Isa

/-- The implementation functions that the tables of the extensions name. -/
inductive ImplFunc
  | lui | auipc | jal | jalr | beq | bne | blt | bge | bltu | bgeu | lb | lh | lw | lbu | lhu
  | sb | sh | sw | addi | slti | sltiu | xori | ori | andi | slli | srli | srai | add | sub | sll
  | slt | sltu | f_xor | srl | sra | f_or | f_and | fence | fencei | ecall | ebreak | csrrw
  | csrrs | csrrc | csrrwi | csrrsi | csrrci | caddi4spn | clwsp | cswsp | clw | csw | cj
  | CRFUNC_1000 | CRFUNC_1001 | cbeqz | cbnez | cli | CIFUNC | caddi | cslli | csrli | csrai
  | candi | cand | cor | cxor | csub | cjal | lwu | ld | sd | addiw | slliw | srliw | sraiw
  | addw | subw | sllw | srlw | sraw | cldsp | csdsp | cld | csd | caddiw | caddw | csubw | mul
  | mulh | mulhsu | mulhu | div | divu | rem | remu | mulw | divw | divuw | remw | remuw | lrw
  | scw | amoswapw | amoaddw | amoxorw | amoandw | amoorw | amominw | amomaxw | amominuw
  | amomaxuw | lrd | scd | amoswapd | amoaddd | amoxord | amoandd | amoord | amomind | amomaxd
  | amominud | amomaxud | flw | fsw | fmadds | fmsubs | fnmsubs | fnmadds | fadds | fsubs | fmuls
  | fdivs | fsqrts | fmins | fmaxs | fsgnjs | fsgnjns | fsgnjxs | fcvtws | fcvtwus | fmvxw | feqs
  | flts | fles | fclasss | fcvtsw | fcvtswu | fmvwx | cflwsp | cfswsp | cflw | cfsw | fcvtls
  | fcvtlus | fcvtsl | fcvtslu | fld | fsd | fmaddd | fmsubd | fnmsubd | fnmaddd | faddd | fsubd
  | fmuld | fdivd | fsqrtd | fmind | fmaxd | fsgnjd | fsgnjnd | fsgnjxd | fcvtsd | fcvtds | feqd
  | fltd | fled | fclassd | fcvtwd | fcvtwud | fcvtdw | fcvtdwu | cfldsp | cfsdsp | cfld | cfsd
  | fcvtld | fcvtlud | fcvtdl | fcvtdlu | fmvxd | fmvdx | cmo
  deriving DecidableEq, Repr

def RV32ITable : List (RevInstEntry ImplFunc) :=
  [ { opcode := 0b0110111, rs1Class := .RegUNKNOWN, rs2Class := .RegUNKNOWN, format := .RVTypeU,
      func := some .lui },
    { opcode := 0b0010111, rs1Class := .RegUNKNOWN, rs2Class := .RegUNKNOWN, format := .RVTypeU,
      func := some .auipc },
    { opcode := 0b1101111, rs1Class := .RegUNKNOWN, rs2Class := .RegUNKNOWN, format := .RVTypeJ,
      func := some .jal },
    { opcode := 0b1100111, rs2Class := .RegUNKNOWN, imm := .FImm, format := .RVTypeI,
      func := some .jalr },
    { opcode := 0b1100011, rdClass := .RegIMM, format := .RVTypeB, func := some .beq },
    { opcode := 0b1100011, funct3 := 0b001, rdClass := .RegIMM, format := .RVTypeB,
      func := some .bne },
    { opcode := 0b1100011, funct3 := 0b100, rdClass := .RegIMM, format := .RVTypeB,
      func := some .blt },
    { opcode := 0b1100011, funct3 := 0b101, rdClass := .RegIMM, format := .RVTypeB,
      func := some .bge },
    { opcode := 0b1100011, funct3 := 0b110, rdClass := .RegIMM, format := .RVTypeB,
      func := some .bltu },
    { opcode := 0b1100011, funct3 := 0b111, rdClass := .RegIMM, format := .RVTypeB,
      func := some .bgeu },
    { opcode := 0b0000011, rs2Class := .RegUNKNOWN, imm := .FImm, format := .RVTypeI,
      func := some .lb },
    { opcode := 0b0000011, funct3 := 0b001, rs2Class := .RegUNKNOWN, imm := .FImm,
      format := .RVTypeI, func := some .lh },
    { opcode := 0b0000011, funct3 := 0b010, rs2Class := .RegUNKNOWN, imm := .FImm,
      format := .RVTypeI, func := some .lw },
    { opcode := 0b0000011, funct3 := 0b100, rs2Class := .RegUNKNOWN, imm := .FImm,
      format := .RVTypeI, func := some .lbu },
    { opcode := 0b0000011, funct3 := 0b101, rs2Class := .RegUNKNOWN, imm := .FImm,
      format := .RVTypeI, func := some .lhu },
    { opcode := 0b0100011, rdClass := .RegIMM, format := .RVTypeS, func := some .sb },
    { opcode := 0b0100011, funct3 := 0b001, rdClass := .RegIMM, format := .RVTypeS,
      func := some .sh },
    { opcode := 0b0100011, funct3 := 0b010, rdClass := .RegIMM, format := .RVTypeS,
      func := some .sw },
    { opcode := 0b0010011, rs2Class := .RegUNKNOWN, imm := .FImm, format := .RVTypeI,
      func := some .addi },
    { opcode := 0b0010011, funct3 := 0b010, rs2Class := .RegUNKNOWN, imm := .FImm,
      format := .RVTypeI, func := some .slti },
    { opcode := 0b0010011, funct3 := 0b011, rs2Class := .RegUNKNOWN, imm := .FImm,
      format := .RVTypeI, func := some .sltiu },
    { opcode := 0b0010011, funct3 := 0b100, rs2Class := .RegUNKNOWN, imm := .FImm,
      format := .RVTypeI, func := some .xori },
    { opcode := 0b0010011, funct3 := 0b110, rs2Class := .RegUNKNOWN, imm := .FImm,
      format := .RVTypeI, func := some .ori },
    { opcode := 0b0010011, funct3 := 0b111, rs2Class := .RegUNKNOWN, imm := .FImm,
      format := .RVTypeI, func := some .andi },
    { opcode := 0b0010011, funct3 := 0b001, rs2Class := .RegUNKNOWN, imm := .FImm,
      format := .RVTypeI, func := some .slli },
    { opcode := 0b0010011, funct3 := 0b101, rs2Class := .RegUNKNOWN, imm := .FImm,
      format := .RVTypeI, func := some .srli },
    { opcode := 0b0010011, funct3 := 0b101, funct2or7 := 0b0010000, rs2Class := .RegUNKNOWN,
      imm := .FImm, format := .RVTypeI, func := some .srai },
    { opcode := 0b0110011, func := some .add },
    { opcode := 0b0110011, funct2or7 := 0b0100000, func := some .sub },
    { opcode := 0b0110011, funct3 := 0b001, func := some .sll },
    { opcode := 0b0110011, funct3 := 0b010, func := some .slt },
    { opcode := 0b0110011, funct3 := 0b011, func := some .sltu },
    { opcode := 0b0110011, funct3 := 0b100, func := some .f_xor },
    { opcode := 0b0110011, funct3 := 0b101, func := some .srl },
    { opcode := 0b0110011, funct3 := 0b101, funct2or7 := 0b0100000, func := some .sra },
    { opcode := 0b0110011, funct3 := 0b110, func := some .f_or },
    { opcode := 0b0110011, funct3 := 0b111, func := some .f_and },
    { opcode := 0b0001111, rdClass := .RegUNKNOWN, rs1Class := .RegUNKNOWN,
      rs2Class := .RegUNKNOWN, imm := .FVal, format := .RVTypeI, func := some .fence },
    { opcode := 0b0001111, funct3 := 0b001, rdClass := .RegUNKNOWN, rs1Class := .RegUNKNOWN,
      rs2Class := .RegUNKNOWN, format := .RVTypeI, func := some .fencei },
    { opcode := 0b1110011, rdClass := .RegUNKNOWN, rs1Class := .RegUNKNOWN,
      rs2Class := .RegUNKNOWN, imm := .FEnc, format := .RVTypeI, func := some .ecall },
    { opcode := 0b1110011, rdClass := .RegUNKNOWN, rs1Class := .RegUNKNOWN,
      rs2Class := .RegUNKNOWN, imm12 := 0b000000000001, imm := .FEnc, format := .RVTypeI,
      func := some .ebreak },
    { opcode := 0b1110011, funct3 := 0b001, rs2Class := .RegUNKNOWN, imm := .FVal,
      format := .RVTypeU, func := some .csrrw },
    { opcode := 0b1110011, funct3 := 0b010, rs2Class := .RegUNKNOWN, imm := .FVal,
      format := .RVTypeU, func := some .csrrs },
    { opcode := 0b1110011, funct3 := 0b011, rs2Class := .RegUNKNOWN, imm := .FVal,
      format := .RVTypeU, func := some .csrrc },
    { opcode := 0b1110011, funct3 := 0b101, rs2Class := .RegUNKNOWN, imm := .FVal,
      format := .RVTypeU, func := some .csrrwi },
    { opcode := 0b1110011, funct3 := 0b110, rs2Class := .RegUNKNOWN, imm := .FVal,
      format := .RVTypeU, func := some .csrrsi },
    { opcode := 0b1110011, funct3 := 0b111, rs2Class := .RegUNKNOWN, imm := .FVal,
      format := .RVTypeU, func := some .csrrci } ]

def RV32ICTable : List (RevInstEntry ImplFunc) :=
  [ { opcode := 0b00, imm := .FVal, format := .RVCTypeCIW, compressed := true,
      func := some .caddi4spn },
    { opcode := 0b10, funct3 := 0b010, imm := .FVal, format := .RVCTypeCI, compressed := true,
      func := some .clwsp },
    { opcode := 0b10, funct3 := 0b110, imm := .FVal, format := .RVCTypeCSS, compressed := true,
      func := some .cswsp },
    { opcode := 0b00, funct3 := 0b010, imm := .FVal, format := .RVCTypeCL, compressed := true,
      func := some .clw },
    { opcode := 0b00, funct3 := 0b110, imm := .FVal, format := .RVCTypeCS, compressed := true,
      func := some .csw },
    { opcode := 0b01, funct3 := 0b101, imm := .FVal, format := .RVCTypeCJ, compressed := true,
      func := some .cj },
    { opcode := 0b10, funct4 := 0b1000, format := .RVCTypeCR, compressed := true,
      func := some .CRFUNC_1000 },
    { opcode := 0b10, funct4 := 0b1001, format := .RVCTypeCR, compressed := true,
      func := some .CRFUNC_1001 },
    { opcode := 0b01, funct3 := 0b110, imm := .FVal, format := .RVCTypeCB, compressed := true,
      func := some .cbeqz },
    { opcode := 0b01, funct3 := 0b111, imm := .FVal, format := .RVCTypeCB, compressed := true,
      func := some .cbnez },
    { opcode := 0b01, funct3 := 0b010, imm := .FVal, format := .RVCTypeCI, compressed := true,
      func := some .cli },
    { opcode := 0b01, funct3 := 0b011, imm := .FVal, format := .RVCTypeCI, compressed := true,
      func := some .CIFUNC },
    { opcode := 0b01, imm := .FVal, format := .RVCTypeCI, compressed := true,
      func := some .caddi },
    { opcode := 0b10, imm := .FVal, format := .RVCTypeCI, compressed := true,
      func := some .cslli },
    { opcode := 0b01, funct3 := 0b100, imm := .FVal, format := .RVCTypeCB, compressed := true,
      func := some .csrli },
    { opcode := 0b01, funct2 := 0b01, funct3 := 0b100, imm := .FVal, format := .RVCTypeCB,
      compressed := true, func := some .csrai },
    { opcode := 0b01, funct2 := 0b10, funct3 := 0b100, imm := .FVal, format := .RVCTypeCB,
      compressed := true, func := some .candi },
    { opcode := 0b01, funct2 := 0b11, funct6 := 0b100011, format := .RVCTypeCA,
      compressed := true, func := some .cand },
    { opcode := 0b01, funct2 := 0b10, funct6 := 0b100011, format := .RVCTypeCA,
      compressed := true, func := some .cor },
    { opcode := 0b01, funct2 := 0b01, funct6 := 0b100011, format := .RVCTypeCA,
      compressed := true, func := some .cxor },
    { opcode := 0b01, funct6 := 0b100011, format := .RVCTypeCA, compressed := true,
      func := some .csub } ]

def RV32ICOTable : List (RevInstEntry ImplFunc) :=
  [ { opcode := 0b01, funct3 := 0b001, format := .RVCTypeCJ, compressed := true,
      func := some .cjal } ]

def RV64ITable : List (RevInstEntry ImplFunc) :=
  [ { opcode := 0b0000011, funct3 := 0b110, rs2Class := .RegUNKNOWN, imm := .FImm,
      format := .RVTypeI, func := some .lwu },
    { opcode := 0b0000011, funct3 := 0b011, rs2Class := .RegUNKNOWN, imm := .FImm,
      format := .RVTypeI, func := some .ld },
    { opcode := 0b0100011, funct3 := 0b011, rdClass := .RegIMM, format := .RVTypeS,
      func := some .sd },
    { opcode := 0b0011011, rs2Class := .RegUNKNOWN, imm := .FImm, format := .RVTypeI,
      func := some .addiw },
    { opcode := 0b0011011, funct3 := 0b001, rs2Class := .RegUNKNOWN, imm := .FImm,
      format := .RVTypeI, func := some .slliw },
    { opcode := 0b0011011, funct3 := 0b101, rs2Class := .RegUNKNOWN, imm := .FImm,
      format := .RVTypeI, func := some .srliw },
    { opcode := 0b0011011, funct3 := 0b101, funct2or7 := 0b0100000, rs2Class := .RegUNKNOWN,
      imm := .FImm, format := .RVTypeI, func := some .sraiw },
    { opcode := 0b0111011, func := some .addw },
    { opcode := 0b0111011, funct2or7 := 0b0100000, func := some .subw },
    { opcode := 0b0111011, funct3 := 0b001, func := some .sllw },
    { opcode := 0b0111011, funct3 := 0b101, func := some .srlw },
    { opcode := 0b0111011, funct3 := 0b101, funct2or7 := 0b0100000, func := some .sraw } ]

def RV64ICTable : List (RevInstEntry ImplFunc) :=
  [ { opcode := 0b10, funct3 := 0b011, imm := .FVal, format := .RVCTypeCI, compressed := true,
      func := some .cldsp },
    { opcode := 0b10, funct3 := 0b111, imm := .FVal, format := .RVCTypeCSS, compressed := true,
      func := some .csdsp },
    { opcode := 0b00, funct3 := 0b011, imm := .FVal, format := .RVCTypeCL, compressed := true,
      func := some .cld },
    { opcode := 0b00, funct3 := 0b111, imm := .FVal, format := .RVCTypeCS, compressed := true,
      func := some .csd },
    { opcode := 0b01, funct3 := 0b001, imm := .FVal, format := .RVCTypeCI, compressed := true,
      func := some .caddiw },
    { opcode := 0b01, funct2 := 0b01, funct6 := 0b100111, format := .RVCTypeCA,
      compressed := true, func := some .caddw },
    { opcode := 0b01, funct6 := 0b100111, format := .RVCTypeCA, compressed := true,
      func := some .csubw } ]

def RV32MTable : List (RevInstEntry ImplFunc) :=
  [ { opcode := 0b0110011, funct2or7 := 0b0000001, func := some .mul },
    { opcode := 0b0110011, funct3 := 0b001, funct2or7 := 0b0000001, func := some .mulh },
    { opcode := 0b0110011, funct3 := 0b010, funct2or7 := 0b0000001, func := some .mulhsu },
    { opcode := 0b0110011, funct3 := 0b011, funct2or7 := 0b0000001, func := some .mulhu },
    { opcode := 0b0110011, funct3 := 0b100, funct2or7 := 0b0000001, func := some .div },
    { opcode := 0b0110011, funct3 := 0b101, funct2or7 := 0b0000001, func := some .divu },
    { opcode := 0b0110011, funct3 := 0b110, funct2or7 := 0b0000001, func := some .rem },
    { opcode := 0b0110011, funct3 := 0b111, funct2or7 := 0b0000001, func := some .remu } ]

def RV64MTable : List (RevInstEntry ImplFunc) :=
  [ { opcode := 0b0111011, funct2or7 := 0b0000001, func := some .mulw },
    { opcode := 0b0111011, funct3 := 0b100, funct2or7 := 0b0000001, func := some .divw },
    { opcode := 0b0111011, funct3 := 0b101, funct2or7 := 0b0000001, func := some .divuw },
    { opcode := 0b0111011, funct3 := 0b110, funct2or7 := 0b0000001, func := some .remw },
    { opcode := 0b0111011, funct3 := 0b111, funct2or7 := 0b0000001, func := some .remuw } ]

def RV32ATable : List (RevInstEntry ImplFunc) :=
  [ { opcode := 0b0101111, funct3 := 0b010, funct2or7 := 0b0000010, rs2Class := .RegUNKNOWN,
      func := some .lrw },
    { opcode := 0b0101111, funct3 := 0b010, funct2or7 := 0b0000011, func := some .scw },
    { opcode := 0b0101111, funct3 := 0b010, funct2or7 := 0b0000001, func := some .amoswapw },
    { opcode := 0b0101111, funct3 := 0b010, func := some .amoaddw },
    { opcode := 0b0101111, funct3 := 0b010, funct2or7 := 0b0000100, func := some .amoxorw },
    { opcode := 0b0101111, funct3 := 0b010, funct2or7 := 0b0001100, func := some .amoandw },
    { opcode := 0b0101111, funct3 := 0b010, funct2or7 := 0b0001000, func := some .amoorw },
    { opcode := 0b0101111, funct3 := 0b010, funct2or7 := 0b0010000, func := some .amominw },
    { opcode := 0b0101111, funct3 := 0b010, funct2or7 := 0b0010100, func := some .amomaxw },
    { opcode := 0b0101111, funct3 := 0b010, funct2or7 := 0b0011000, func := some .amominuw },
    { opcode := 0b0101111, funct3 := 0b010, funct2or7 := 0b0011100, func := some .amomaxuw } ]

def RV64ATable : List (RevInstEntry ImplFunc) :=
  [ { opcode := 0b0101111, funct3 := 0b011, funct2or7 := 0b0000010, rs2Class := .RegUNKNOWN,
      func := some .lrd },
    { opcode := 0b0101111, funct3 := 0b011, funct2or7 := 0b0000011, rs2Class := .RegUNKNOWN,
      func := some .scd },
    { opcode := 0b0101111, funct3 := 0b011, funct2or7 := 0b0000001, func := some .amoswapd },
    { opcode := 0b0101111, funct3 := 0b011, func := some .amoaddd },
    { opcode := 0b0101111, funct3 := 0b011, funct2or7 := 0b0000100, func := some .amoxord },
    { opcode := 0b0101111, funct3 := 0b011, funct2or7 := 0b0001100, func := some .amoandd },
    { opcode := 0b0101111, funct3 := 0b011, funct2or7 := 0b0001000, func := some .amoord },
    { opcode := 0b0101111, funct3 := 0b011, funct2or7 := 0b0010000, func := some .amomind },
    { opcode := 0b0101111, funct3 := 0b011, funct2or7 := 0b0010100, func := some .amomaxd },
    { opcode := 0b0101111, funct3 := 0b011, funct2or7 := 0b0011000, func := some .amominud },
    { opcode := 0b0101111, funct3 := 0b011, funct2or7 := 0b0011100, func := some .amomaxud } ]

def RV32FTable : List (RevInstEntry ImplFunc) :=
  [ { opcode := 0b0000111, funct3 := 0b010, rdClass := .RegFLOAT, rs2Class := .RegUNKNOWN,
      format := .RVTypeI, func := some .flw },
    { opcode := 0b0100111, funct3 := 0b010, rdClass := .RegIMM, rs2Class := .RegFLOAT,
      format := .RVTypeS, func := some .fsw },
    { opcode := 0b1000011, rdClass := .RegFLOAT, rs1Class := .RegFLOAT, rs2Class := .RegFLOAT,
      rs3Class := .RegFLOAT, format := .RVTypeR4, func := some .fmadds },
    { opcode := 0b1000111, rdClass := .RegFLOAT, rs1Class := .RegFLOAT, rs2Class := .RegFLOAT,
      rs3Class := .RegFLOAT, format := .RVTypeR4, func := some .fmsubs },
    { opcode := 0b1001011, rdClass := .RegFLOAT, rs1Class := .RegFLOAT, rs2Class := .RegFLOAT,
      rs3Class := .RegFLOAT, format := .RVTypeR4, func := some .fnmsubs },
    { opcode := 0b1001111, rdClass := .RegFLOAT, rs1Class := .RegFLOAT, rs2Class := .RegFLOAT,
      rs3Class := .RegFLOAT, format := .RVTypeR4, func := some .fnmadds },
    { opcode := 0b1010011, rdClass := .RegFLOAT, rs1Class := .RegFLOAT, rs2Class := .RegFLOAT,
      func := some .fadds },
    { opcode := 0b1010011, funct2or7 := 0b0000100, rdClass := .RegFLOAT, rs1Class := .RegFLOAT,
      rs2Class := .RegFLOAT, func := some .fsubs },
    { opcode := 0b1010011, funct2or7 := 0b0001000, rdClass := .RegFLOAT, rs1Class := .RegFLOAT,
      rs2Class := .RegFLOAT, func := some .fmuls },
    { opcode := 0b1010011, funct2or7 := 0b0001100, rdClass := .RegFLOAT, rs1Class := .RegFLOAT,
      rs2Class := .RegFLOAT, func := some .fdivs },
    { opcode := 0b1010011, funct2or7 := 0b0101100, rdClass := .RegFLOAT, rs1Class := .RegFLOAT,
      rs2Class := .RegUNKNOWN, func := some .fsqrts },
    { opcode := 0b1010011, funct2or7 := 0b0010100, rdClass := .RegFLOAT, rs1Class := .RegFLOAT,
      rs2Class := .RegFLOAT, func := some .fmins },
    { opcode := 0b1010011, funct3 := 0b001, funct2or7 := 0b0010100, rdClass := .RegFLOAT,
      rs1Class := .RegFLOAT, rs2Class := .RegFLOAT, func := some .fmaxs },
    { opcode := 0b1010011, funct2or7 := 0b0010000, rdClass := .RegFLOAT, rs1Class := .RegFLOAT,
      rs2Class := .RegFLOAT, func := some .fsgnjs },
    { opcode := 0b1010011, funct3 := 0b001, funct2or7 := 0b0010000, rdClass := .RegFLOAT,
      rs1Class := .RegFLOAT, rs2Class := .RegFLOAT, func := some .fsgnjns },
    { opcode := 0b1010011, funct3 := 0b010, funct2or7 := 0b0010000, rdClass := .RegFLOAT,
      rs1Class := .RegFLOAT, rs2Class := .RegFLOAT, func := some .fsgnjxs },
    { opcode := 0b1010011, funct2or7 := 0b1100000, rs1Class := .RegFLOAT,
      rs2Class := .RegUNKNOWN, func := some .fcvtws },
    { opcode := 0b1010011, funct2or7 := 0b1100000, rs1Class := .RegFLOAT,
      rs2Class := .RegUNKNOWN, fpcvtOp := 0b00001, func := some .fcvtwus },
    { opcode := 0b1010011, funct2or7 := 0b1110000, rs1Class := .RegFLOAT,
      rs2Class := .RegUNKNOWN, func := some .fmvxw },
    { opcode := 0b1010011, funct3 := 0b010, funct2or7 := 0b1010000, rs1Class := .RegFLOAT,
      rs2Class := .RegFLOAT, func := some .feqs },
    { opcode := 0b1010011, funct3 := 0b001, funct2or7 := 0b1010000, rs1Class := .RegFLOAT,
      rs2Class := .RegFLOAT, func := some .flts },
    { opcode := 0b1010011, funct2or7 := 0b1010000, rs1Class := .RegFLOAT, rs2Class := .RegFLOAT,
      func := some .fles },
    { opcode := 0b1010011, funct3 := 0b001, funct2or7 := 0b1110000, rs1Class := .RegFLOAT,
      rs2Class := .RegUNKNOWN, func := some .fclasss },
    { opcode := 0b1010011, funct2or7 := 0b1101000, rdClass := .RegFLOAT,
      rs2Class := .RegUNKNOWN, func := some .fcvtsw },
    { opcode := 0b1010011, funct2or7 := 0b1101000, rdClass := .RegFLOAT,
      rs2Class := .RegUNKNOWN, fpcvtOp := 0b00001, func := some .fcvtswu },
    { opcode := 0b1010011, funct2or7 := 0b1111000, rdClass := .RegFLOAT,
      rs2Class := .RegUNKNOWN, func := some .fmvwx } ]

def RV32FCOTable : List (RevInstEntry ImplFunc) :=
  [ { opcode := 0b10, funct3 := 0b011, rdClass := .RegFLOAT, imm := .FVal, format := .RVCTypeCI,
      compressed := true, func := some .cflwsp },
    { opcode := 0b10, funct3 := 0b111, rs2Class := .RegFLOAT, imm := .FVal,
      format := .RVCTypeCSS, compressed := true, func := some .cfswsp },
    { opcode := 0b00, funct3 := 0b011, rdClass := .RegFLOAT, imm := .FVal, format := .RVCTypeCL,
      compressed := true, func := some .cflw },
    { opcode := 0b00, funct3 := 0b111, rs2Class := .RegFLOAT, imm := .FVal,
      format := .RVCTypeCS, compressed := true, func := some .cfsw } ]

def RV64FTable : List (RevInstEntry ImplFunc) :=
  [ { opcode := 0b1010011, funct2or7 := 0b1100000, rs1Class := .RegFLOAT,
      rs2Class := .RegUNKNOWN, fpcvtOp := 0b00010, func := some .fcvtls },
    { opcode := 0b1010011, funct2or7 := 0b1100000, rs1Class := .RegFLOAT,
      rs2Class := .RegUNKNOWN, fpcvtOp := 0b00011, func := some .fcvtlus },
    { opcode := 0b1010011, funct2or7 := 0b1101000, rdClass := .RegFLOAT,
      rs2Class := .RegUNKNOWN, fpcvtOp := 0b00010, func := some .fcvtsl },
    { opcode := 0b1010011, funct2or7 := 0b1101000, rdClass := .RegFLOAT,
      rs2Class := .RegUNKNOWN, fpcvtOp := 0b00011, func := some .fcvtslu } ]

def RV32DTable : List (RevInstEntry ImplFunc) :=
  [ { opcode := 0b0000111, funct3 := 0b011, rdClass := .RegFLOAT, format := .RVTypeI,
      func := some .fld },
    { opcode := 0b0100111, funct3 := 0b011, rdClass := .RegIMM, rs1Class := .RegFLOAT,
      rs2Class := .RegFLOAT, format := .RVTypeS, func := some .fsd },
    { opcode := 0b1000011, funct2or7 := 0b0000001, rdClass := .RegFLOAT, rs1Class := .RegFLOAT,
      rs2Class := .RegFLOAT, rs3Class := .RegFLOAT, format := .RVTypeR4,
      func := some .fmaddd },
    { opcode := 0b1000111, funct2or7 := 0b0000001, rdClass := .RegFLOAT, rs1Class := .RegFLOAT,
      rs2Class := .RegFLOAT, rs3Class := .RegFLOAT, format := .RVTypeR4,
      func := some .fmsubd },
    { opcode := 0b1001011, funct2or7 := 0b0000001, rdClass := .RegFLOAT, rs1Class := .RegFLOAT,
      rs2Class := .RegFLOAT, rs3Class := .RegFLOAT, format := .RVTypeR4,
      func := some .fnmsubd },
    { opcode := 0b1001111, funct2or7 := 0b0000001, rdClass := .RegFLOAT, rs1Class := .RegFLOAT,
      rs2Class := .RegFLOAT, rs3Class := .RegFLOAT, format := .RVTypeR4,
      func := some .fnmaddd },
    { opcode := 0b1010011, funct2or7 := 0b0000001, rdClass := .RegFLOAT, rs1Class := .RegFLOAT,
      rs2Class := .RegFLOAT, func := some .faddd },
    { opcode := 0b1010011, funct2or7 := 0b0000101, rdClass := .RegFLOAT, rs1Class := .RegFLOAT,
      rs2Class := .RegFLOAT, func := some .fsubd },
    { opcode := 0b1010011, funct2or7 := 0b0001001, rdClass := .RegFLOAT, rs1Class := .RegFLOAT,
      rs2Class := .RegFLOAT, func := some .fmuld },
    { opcode := 0b1010011, funct2or7 := 0b0001101, rdClass := .RegFLOAT, rs1Class := .RegFLOAT,
      rs2Class := .RegFLOAT, func := some .fdivd },
    { opcode := 0b1010011, funct2or7 := 0b0101101, rdClass := .RegFLOAT, rs1Class := .RegFLOAT,
      rs2Class := .RegUNKNOWN, func := some .fsqrtd },
    { opcode := 0b1010011, funct2or7 := 0b0010101, rdClass := .RegFLOAT, rs1Class := .RegFLOAT,
      rs2Class := .RegFLOAT, func := some .fmind },
    { opcode := 0b1010011, funct3 := 0b001, funct2or7 := 0b0010101, rdClass := .RegFLOAT,
      rs1Class := .RegFLOAT, rs2Class := .RegFLOAT, func := some .fmaxd },
    { opcode := 0b1010011, funct2or7 := 0b0010001, rdClass := .RegFLOAT, rs1Class := .RegFLOAT,
      rs2Class := .RegFLOAT, func := some .fsgnjd },
    { opcode := 0b1010011, funct3 := 0b001, funct2or7 := 0b0010001, rdClass := .RegFLOAT,
      rs1Class := .RegFLOAT, rs2Class := .RegFLOAT, func := some .fsgnjnd },
    { opcode := 0b1010011, funct3 := 0b010, funct2or7 := 0b0010001, rdClass := .RegFLOAT,
      rs1Class := .RegFLOAT, rs2Class := .RegFLOAT, func := some .fsgnjxd },
    { opcode := 0b1010011, funct2or7 := 0b0100000, rdClass := .RegFLOAT, rs1Class := .RegFLOAT,
      rs2Class := .RegUNKNOWN, fpcvtOp := 0b00001, func := some .fcvtsd },
    { opcode := 0b1010011, funct2or7 := 0b0100001, rdClass := .RegFLOAT, rs1Class := .RegFLOAT,
      rs2Class := .RegUNKNOWN, func := some .fcvtds },
    { opcode := 0b1010011, funct3 := 0b010, funct2or7 := 0b1010001, rs1Class := .RegFLOAT,
      rs2Class := .RegFLOAT, func := some .feqd },
    { opcode := 0b1010011, funct3 := 0b001, funct2or7 := 0b1010001, rs1Class := .RegFLOAT,
      rs2Class := .RegFLOAT, func := some .fltd },
    { opcode := 0b1010011, funct2or7 := 0b1010001, rs1Class := .RegFLOAT, rs2Class := .RegFLOAT,
      func := some .fled },
    { opcode := 0b1010011, funct3 := 0b001, funct2or7 := 0b1110001, rs1Class := .RegFLOAT,
      rs2Class := .RegUNKNOWN, func := some .fclassd },
    { opcode := 0b1010011, funct2or7 := 0b1100001, rs1Class := .RegFLOAT,
      rs2Class := .RegUNKNOWN, func := some .fcvtwd },
    { opcode := 0b1010011, funct2or7 := 0b1100001, rs1Class := .RegFLOAT,
      rs2Class := .RegUNKNOWN, fpcvtOp := 0b00001, func := some .fcvtwud },
    { opcode := 0b1010011, funct2or7 := 0b1101001, rdClass := .RegFLOAT,
      rs2Class := .RegUNKNOWN, func := some .fcvtdw },
    { opcode := 0b1010011, funct2or7 := 0b1101001, rdClass := .RegFLOAT,
      rs2Class := .RegUNKNOWN, fpcvtOp := 0b00001, func := some .fcvtdwu } ]

def RV32DCTable : List (RevInstEntry ImplFunc) :=
  [ { opcode := 0b10, funct3 := 0b001, rdClass := .RegFLOAT, imm := .FVal, format := .RVCTypeCI,
      compressed := true, func := some .cfldsp },
    { opcode := 0b10, funct3 := 0b101, rs2Class := .RegFLOAT, imm := .FVal,
      format := .RVCTypeCSS, compressed := true, func := some .cfsdsp },
    { opcode := 0b00, funct3 := 0b001, rdClass := .RegFLOAT, imm := .FVal, format := .RVCTypeCL,
      compressed := true, func := some .cfld },
    { opcode := 0b00, funct3 := 0b101, imm := .FVal, format := .RVCTypeCS, compressed := true,
      func := some .cfsd } ]

def RV64DTable : List (RevInstEntry ImplFunc) :=
  [ { opcode := 0b1010011, funct2or7 := 0b1100001, rs1Class := .RegFLOAT,
      rs2Class := .RegUNKNOWN, fpcvtOp := 0b00010, func := some .fcvtld },
    { opcode := 0b1010011, funct2or7 := 0b1100001, rs1Class := .RegFLOAT,
      rs2Class := .RegUNKNOWN, fpcvtOp := 0b00011, func := some .fcvtlud },
    { opcode := 0b1010011, funct2or7 := 0b1101001, rdClass := .RegFLOAT,
      rs2Class := .RegUNKNOWN, fpcvtOp := 0b00010, func := some .fcvtdl },
    { opcode := 0b1010011, funct2or7 := 0b1101001, rdClass := .RegFLOAT,
      rs2Class := .RegUNKNOWN, fpcvtOp := 0b00011, func := some .fcvtdlu },
    { opcode := 0b1010011, funct2or7 := 0b1110001, rs1Class := .RegFLOAT,
      rs2Class := .RegUNKNOWN, func := some .fmvxd },
    { opcode := 0b1010011, funct2or7 := 0b1111001, rdClass := .RegFLOAT,
      rs2Class := .RegUNKNOWN, func := some .fmvdx } ]

def ZicbomTable : List (RevInstEntry ImplFunc) :=
  [ { opcode := 0b0001111, funct3 := 0b010, rdClass := .RegUNKNOWN, rs2Class := .RegUNKNOWN,
      imm12 := 0b000000000001, imm := .FEnc, format := .RVTypeI, func := some .cmo },
    { opcode := 0b0001111, funct3 := 0b010, rdClass := .RegUNKNOWN, rs2Class := .RegUNKNOWN,
      imm12 := 0b000000000010, imm := .FEnc, format := .RVTypeI, func := some .cmo },
    { opcode := 0b0001111, funct3 := 0b010, rdClass := .RegUNKNOWN, rs2Class := .RegUNKNOWN,
      imm := .FEnc, format := .RVTypeI, func := some .cmo } ]
end RevCPU.Isa
