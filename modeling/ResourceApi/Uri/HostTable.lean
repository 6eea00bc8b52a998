import ResourceApi.Text.RangeTable

/-!
Which characters may stand in the name of a host, and which of them stand for others. The tables
list the code points in order: runs of one status, and runs whose characters stand for consecutive
characters of ASCII.
-/

namespace ResourceApi.Uri

/-- What becomes of a character in the name of a host. -/
inductive HostStatus where
  | valid
  | mapped
  | ignored
  | disallowed
  deriving DecidableEq, Repr, Inhabited

namespace HostStatus

def letters : List (Char × HostStatus) :=
  [('V', .valid), ('M', .mapped), ('I', .ignored), ('X', .disallowed)]

/-- The runs as text. A character that stands for one that no host can have is disallowed. -/
def written : String := (String.join
  ["V65 M26 V37 X33 V7 X1 V1 M1 V2 I1 V1 X1 V2 M2 X1 M1 V2 X1 M2 V1 M3 V1 M23 V1 M7 V33 M1 V1 ",
   "M1 V1 M1 V1 M1 V1 M1 V1 M1 V1 M1 V1 M1 V1 M1 V1 M1 V1 M1 V1 M1 V1 M1 V1 M1 V1 M1 V1 M1 V1 ",
   "M1 V1 M1 V1 M1 V1 M1 V1 M1 V1 M1 V1 M1 V1 M1 V1 M1 V1 M3 V1 M1 V2 M1 V1 M1 V1 M1 V1 M3 V1 ",
   "M1 V1 M1 V1 M1 V1 M2 V1 M1 V1 M1 V1 M1 V1 M1 V1 M1 V1 M1 V1 M1 V1 M1 V1 M1 V1 M1 V1 M1 V1 ",
   "M1 V1 M1 V1 M1 V1 M1 V1 M1 V1 M1 V1 M1 V1 M1 V1 M1 V1 M1 V1 M1 V1 M2 V1 M1 V1 M1 V1 M1 V1 ",
   "M2 V1 M1 V1 M2 V1 M3 V2 M4 V1 M2 V1 M3 V3 M2 V1 M2 V1 M1 V1 M1 V1 M2 V1 M1 V2 M1 V1 M2 V1 ",
   "M3 V1 M1 V1 M2 V3 M1 V7 M10 V1 M1 V1 M1 V1 M1 V1 M1 V1 M1 V1 M1 V1 M1 V2 M1 V1 M1 V1 M1 V1 ",
   "M1 V1 M1 V1 M1 V1 M1 V1 M1 V1 M1 V2 M4 V1 M3 V1 M1 V1 M1 V1 M1 V1 M1 V1 M1 V1 M1 V1 M1 V1 ",
   "M1 V1 M1 V1 M1 V1 M1 V1 M1 V1 M1 V1 M1 V1 M1 V1 M1 V1 M1 V1 M1 V1 M1 V1 M1 V1 M1 V1 M1 V1 ",
   "M1 V1 M1 V1 M1 V1 M1 V1 M1 V1 M1 V1 M1 V7 M2 V1 M2 V2 M1 V1 M4 V1 M1 V1 M1 V1 M1 V1 M1 V97 ",
   "M9 V31 X6 V2 M5 V91 M2 V1 M3 V9 I1 V32 M1 V1 M1 V1 M1 V1 M1 V1 X3 V3 M2 X6 M5 X1 M1 X1 M2 ",
   "V1 M17 X1 M9 V35 M8 V1 M1 V1 M1 V1 M1 V1 M1 V1 M1 V1 M1 V1 M1 V1 M1 V1 M1 V1 M1 V1 M1 V1 ",
   "M1 V1 M3 V1 M2 V1 M1 V1 M2 V2 M51 V48 M1 V1 M1 V1 M1 V1 M1 V1 M1 V1 M1 V1 M1 V1 M1 V1 M1 ",
   "V1 M1 V1 M1 V1 M1 V1 M1 V1 M1 V1 M1 V1 M1 V1 M1 V9 M1 V1 M1 V1 M1 V1 M1 V1 M1 V1 M1 V1 M1 ",
   "V1 M1 V1 M1 V1 M1 V1 M1 V1 M1 V1 M1 V1 M1 V1 M1 V1 M1 V1 M1 V1 M1 V1 M1 V1 M1 V1 M1 V1 M1 ",
   "V1 M1 V1 M1 V1 M1 V1 M1 V1 M1 V1 M2 V1 M1 V1 M1 V1 M1 V1 M1 V1 M1 V1 M1 V2 M1 V1 M1 V1 M1 ",
   "V1 M1 V1 M1 V1 M1 V1 M1 V1 M1 V1 M1 V1 M1 V1 M1 V1 M1 V1 M1 V1 M1 V1 M1 V1 M1 V1 M1 V1 M1 ",
   "V1 M1 V1 M1 V1 M1 V1 M1 V1 M1 V1 M1 V1 M1 V1 M1 V1 M1 V1 M1 V1 M1 V1 M1 V1 M1 V1 M1 V1 M1 ",
   "V1 M1 V1 M1 V1 M1 V1 M1 V1 M1 V1 M1 V1 M1 V1 M1 V1 M1 V1 M1 V1 M1 V1 M1 V1 M1 V1 M1 V1 M1 ",
   "V1 X1 M38 X2 V46 M1 V3 X2 V3 X1 V55 X8 V27 X4 V6 X17 V22 X1 V88 M4 V100 X1 V48 X2 V59 X2 ",
   "V101 X14 V59 X2 V49 X2 V15 X1 V28 X2 V1 X1 V11 X5 V32 X7 V75 X1 V117 M8 V36 X1 V8 X2 V2 X2 ",
   "V22 X1 V7 X1 V1 X3 V4 X2 V9 X2 V2 X2 V4 X8 V1 X4 M2 X1 M1 V4 X2 V25 X2 V3 X1 V6 X4 V2 X2 ",
   "V22 X1 V7 X1 V1 M1 X1 V1 M1 X1 V2 X2 V1 X1 V5 X4 V2 X2 V3 X3 V1 X7 M3 V1 X1 M1 X7 V17 X10 ",
   "V3 X1 V9 X1 V3 X1 V22 X1 V7 X1 V2 X1 V5 X2 V10 X1 V3 X1 V3 X2 V1 X15 V4 X2 V12 X7 V7 X1 V3 ",
   "X1 V8 X2 V2 X2 V22 X1 V7 X1 V2 X1 V5 X2 V9 X2 V2 X2 V3 X7 V3 X4 M2 X1 V5 X2 V18 X10 V2 X1 ",
   "V6 X3 V3 X1 V4 X3 V2 X1 V1 X1 V2 X3 V2 X3 V3 X3 V12 X4 V5 X3 V3 X1 V4 X2 V1 X6 V1 X14 V21 ",
   "X5 V13 X1 V3 X1 V23 X1 V16 X2 V9 X1 V3 X1 V4 X7 V2 X1 V3 X1 V2 X2 V4 X2 V10 X7 V22 X1 V3 ",
   "X1 V23 X1 V10 X1 V5 X2 V9 X1 V3 X1 V4 X7 V2 X5 V3 X1 V4 X2 V10 X1 V3 X12 V13 X1 V3 X1 V51 ",
   "X1 V3 X1 V6 X4 V16 X2 V26 X1 V3 X1 V18 X3 V24 X1 V9 X1 V1 X2 V7 X3 V1 X4 V6 X1 V1 X1 V8 X6 ",
   "V10 X2 V3 X12 V50 M1 V7 X4 V29 X37 V2 X1 V1 X1 V5 X1 V24 X1 V1 X1 V12 M1 V10 X2 V5 X1 V1 ",
   "X1 V7 X1 V10 X2 M2 V2 X32 V12 M1 V54 M1 V4 X1 V4 M1 V4 M1 V4 M1 V4 M1 V12 M1 V3 X4 V2 M1 ",
   "V1 M5 V7 M1 V17 M1 V4 X1 V4 M1 V4 M1 V4 M1 V4 M1 V12 M1 V3 X1 V15 X1 V13 X37 V160 M38 X1 ",
   "M1 X5 M1 X2 V44 M1 V98 I2 V232 X1 V4 X2 V7 X1 V1 X1 V4 X2 V41 X1 V4 X2 V33 X1 V4 X2 V7 X1 ",
   "V1 X1 V4 X2 V15 X1 V57 X1 V4 X2 V67 X2 V32 X3 V26 X6 V86 X2 M6 X2 V640 X1 V28 X3 V89 X7 ",
   "V22 X9 V24 X9 V20 X12 V13 X1 V3 X1 V2 X12 V52 I2 V40 X2 V10 X6 V10 X6 V11 I5 V10 X6 V89 X7 ",
   "V43 X5 V70 X10 V31 X1 V12 X4 V12 X4 V1 X3 V42 X2 V5 X11 V44 X4 V26 X6 V11 X3 V62 X2 V65 X1 ",
   "V29 X2 V11 X6 V10 X6 V14 X2 V46 X2 V12 X20 V77 X1 V166 X8 V60 X3 V15 X3 V51 M10 V1 X5 M43 ",
   "X2 M3 V8 X8 V43 X5 V44 M3 V1 M11 V1 M18 V1 M28 V13 M1 V34 M37 V64 M1 V1 M1 V1 M1 V1 M1 V1 ",
   "M1 V1 M1 V1 M1 V1 M1 V1 M1 V1 M1 V1 M1 V1 M1 V1 M1 V1 M1 V1 M1 V1 M1 V1 M1 V1 M1 V1 M1 V1 ",
   "M1 V1 M1 V1 M1 V1 M1 V1 M1 V1 M1 V1 M1 V1 M1 V1 M1 V1 M1 V1 M1 V1 M1 V1 M1 V1 M1 V1 M1 V1 ",
   "M1 V1 M1 V1 M1 V1 M1 V1 M1 V1 M1 V1 M1 V1 M1 V1 M1 V1 M1 V1 M1 V1 M1 V1 M1 V1 M1 V1 M1 V1 ",
   "M1 V1 M1 V1 M1 V1 M1 V1 M1 V1 M1 V1 M1 V1 M1 V1 M1 V1 M1 V1 M1 V1 M1 V1 M1 V1 M1 V1 M1 V1 ",
   "M1 V1 M1 V1 M1 V1 M1 V1 M1 V1 M1 V1 M1 V1 M1 V1 M1 V1 M1 V1 M1 V5 M2 V2 M1 V1 M1 V1 M1 V1 ",
   "M1 V1 M1 V1 M1 V1 M1 V1 M1 V1 M1 V1 M1 V1 M1 V1 M1 V1 M1 V1 M1 V1 M1 V1 M1 V1 M1 V1 M1 V1 ",
   "M1 V1 M1 V1 M1 V1 M1 V1 M1 V1 M1 V1 M1 V1 M1 V1 M1 V1 M1 V1 M1 V1 M1 V1 M1 V1 M1 V1 M1 V1 ",
   "M1 V1 M1 V1 M1 V1 M1 V1 M1 V1 M1 V1 M1 V1 M1 V1 M1 V1 M1 V1 M1 V1 M1 V1 M1 V1 M1 V1 M1 V1 ",
   "M1 V9 M8 V6 X2 M6 X2 V8 M8 V8 M8 V6 X2 M6 X2 V8 X1 M1 X1 M1 X1 M1 X1 M1 V8 M8 V1 M1 V1 M1 ",
   "V1 M1 V1 M1 V1 M1 V1 M1 V1 M1 X2 M48 V2 M3 X1 V1 M6 X1 M1 X3 M3 X1 V1 M6 X3 V3 M1 X2 V2 M4 ",
   "X4 V3 M1 V4 M5 X2 M1 X2 M3 X1 V1 M6 X14 I1 V2 X2 V1 M1 V5 X1 V12 X3 V1 X8 V3 M2 V1 M2 V4 ",
   "M1 V1 X1 V8 X3 V13 M1 V7 X1 I5 X5 I6 M2 X2 M27 X1 M13 X3 V8 M1 V25 X14 V33 X17 M2 V1 X2 M1 ",
   "V1 M11 V1 M2 V2 M5 V2 M3 V1 M1 V1 M1 V1 M1 V1 M4 V1 M11 V1 M6 V4 M5 V6 M48 V3 M1 V5 M1 V2 ",
   "X4 V156 M2 V1 M2 V248 M2 V255 X22 V11 X21 M40 X20 M79 V1313 M1 V103 X1 M2 V101 M1 V151 X2 ",
   "V138 M48 V48 M1 V1 M3 V2 M1 V1 M1 V1 M1 V1 M4 V1 M1 V2 M1 V6 M5 V1 M1 V1 M1 V1 M1 V1 M1 V1 ",
   "M1 V1 M1 V1 M1 V1 M1 V1 M1 V1 M1 V1 M1 V1 M1 V1 M1 V1 M1 V1 M1 V1 M1 V1 M1 V1 M1 V1 M1 V1 ",
   "M1 V1 M1 V1 M1 V1 M1 V1 M1 V1 M1 V1 M1 V1 M1 V1 M1 V1 M1 V1 M1 V1 M1 V1 M1 V1 M1 V1 M1 V1 ",
   "M1 V1 M1 V1 M1 V1 M1 V1 M1 V1 M1 V1 M1 V1 M1 V1 M1 V1 M1 V1 M1 V1 M1 V1 M1 V1 M1 V1 M1 V8 ",
   "M1 V1 M1 V4 M1 V1 X5 V45 X1 V1 X5 V1 X2 V56 X7 M1 V1 X14 V24 X9 V7 X1 V7 X1 V7 X1 V7 X1 V7 ",
   "X1 V7 X1 V7 X1 V7 X1 V126 X34 V26 X1 V4 M1 V83 M1 X12 M214 X43 V1 M1 V51 M1 V1 M3 V5 X1 ",
   "V86 X2 V2 X2 V2 M1 V95 M1 X5 V43 X1 M51 I1 M42 X1 V2 M14 V70 X10 V16 M31 X1 M40 V8 M47 V1 ",
   "M322 X1 M4 X1 M16 X1 M39 V28813 X3 V55 X9 V348 X20 M1 V1 M1 V1 M1 V1 M1 V1 M1 V1 M1 V1 M1 ",
   "V1 M1 V1 M1 V1 M1 V1 M1 V1 M1 V1 M1 V1 M1 V1 M1 V1 M1 V1 M1 V1 M1 V1 M1 V1 M1 V1 M1 V1 M1 ",
   "V1 M1 V19 M1 V1 M1 V1 M1 V1 M1 V1 M1 V1 M1 V1 M1 V1 M1 V1 M1 V1 M1 V1 M1 V1 M1 V1 M1 V1 M1 ",
   "V1 M2 V90 X8 V34 M1 V1 M1 V1 M1 V1 M1 V1 M1 V1 M1 V1 M1 V3 M1 V1 M1 V1 M1 V1 M1 V1 M1 V1 ",
   "M1 V1 M1 V1 M1 V1 M1 V1 M1 V1 M1 V1 M1 V1 M1 V1 M1 V1 M1 V1 M1 V1 M1 V1 M1 V1 M1 V1 M1 V1 ",
   "M1 V1 M1 V1 M1 V1 M1 V1 M1 V1 M1 V1 M1 V1 M1 V1 M1 V1 M1 V1 M1 V1 M1 V8 M1 V1 M1 V1 M2 V1 ",
   "M1 V1 M1 V1 M1 V1 M1 V4 M1 V1 M1 V2 M1 V1 M1 V3 M1 V1 M1 V1 M1 V1 M1 V1 M1 V1 M1 V1 M1 V1 ",
   "M1 V1 M1 V1 M1 V1 M5 V1 M5 V1 M1 V1 M1 V1 M1 V1 M1 V1 M1 V1 M1 V1 M1 V1 M4 V1 M1 V1 M2 V1 ",
   "M1 V1 M1 V1 M1 V1 M1 V1 M1 V1 M1 V1 M1 V1 M1 X20 M5 V2 M2 V51 X3 V10 X6 V56 X8 V70 X8 V12 ",
   "X6 V116 X11 V30 X3 V78 X1 V11 X4 V33 X1 V55 X9 V14 X2 V10 X2 V103 X24 V28 X10 V6 X2 V6 X2 ",
   "V6 X9 V7 X1 V7 X1 V44 M4 V9 M1 V2 X4 M80 V46 X2 V10 X6 V11172 X12 V23 X4 V49 X8452 M270 V2 ",
   "M1 V1 M1 V2 M10 V1 M1 V1 M1 V2 M2 V3 M68 X2 M106 X38 M7 X12 M5 X5 M1 V1 M24 X1 M5 X1 M1 X1 ",
   "M2 X1 M2 X1 M108 V33 M139 X6 M218 V18 M64 V2 M54 V8 X32 M10 X2 M1 V3 I16 M2 X2 M2 X1 M2 X7 ",
   "V16 X1 M20 V2 X6 M5 X2 M1 X2 M8 X1 M4 X2 M1 X2 M1 X7 M1 X1 V1 X3 M1 X1 M1 X1 M1 X1 M1 X1 ",
   "M126 X2 I1 X1 M2 X1 M1 X1 M9 X1 M10 X1 M1 X1 M1 X3 M26 X4 M29 X1 M67 I1 M30 X3 M6 X2 M6 X2 ",
   "M6 X2 M3 X3 M3 X1 M3 X1 M7 X17 V12 X1 V26 X1 V19 X1 V2 X1 V15 X2 V14 X34 V123 X5 V3 X4 V45 ",
   "X3 V88 X1 V13 X3 V1 X47 V46 X130 V29 X3 V49 X15 V28 X4 V36 X9 V30 X5 V43 X5 V30 X1 V37 X4 ",
   "V14 X42 M40 V118 X2 V10 X6 M36 X4 V36 X4 V40 X8 V52 X11 V1 M11 X1 M15 X1 M7 X1 M2 X1 V11 ",
   "X1 V15 X1 V7 X1 V2 X3 V52 X12 V311 X9 V22 X10 V8 X24 V1 M5 X1 M42 X1 M9 X69 V6 X2 V1 X1 ",
   "V44 X1 V2 X3 V1 X2 V23 X1 V72 X8 V9 X48 V19 X1 V2 X5 V33 X3 V27 X5 V27 X38 V56 X4 V20 X2 ",
   "V50 X1 V2 X5 V8 X1 V3 X1 V29 X2 V3 X4 V10 X7 V9 X7 V64 X32 V39 X4 V12 X9 V54 X3 V29 X2 V27 ",
   "X5 V26 X7 V4 X12 V7 X80 V73 X55 M51 X13 V51 X7 V46 X8 V10 X6 V16 M22 X3 V29 X8 V2 X208 V31 ",
   "X1 V42 X1 V3 X2 V2 X16 V6 X8 V9 X33 V46 X8 V42 X22 V26 X38 V28 X20 V23 X9 V78 X4 V36 X9 ",
   "V62 X1 V5 X13 V25 X7 V10 X6 V53 X1 V18 X8 V39 X9 V96 X1 V20 X11 V18 X1 V47 X62 V7 X1 V1 X1 ",
   "V4 X1 V15 X1 V11 X6 V59 X5 V10 X6 V4 X1 V8 X2 V2 X2 V22 X1 V7 X1 V2 X1 V5 X1 V10 X2 V2 X2 ",
   "V3 X2 V1 X6 V1 X5 V7 X2 V7 X3 V5 X11 V10 X1 V1 X2 V1 X1 V38 X1 V10 X1 V1 X2 V1 X1 V4 X1 ",
   "V10 X1 V2 X8 V2 X29 V92 X1 V5 X30 V72 X8 V10 X166 V54 X2 V38 X34 V69 X11 V10 X6 V13 X19 ",
   "V58 X6 V10 X6 V20 X28 V27 X2 V15 X4 V23 X185 V60 X100 M32 V51 X12 V8 X2 V1 X2 V8 X1 V2 X1 ",
   "V30 X1 V2 X2 V12 X9 V10 X70 V8 X2 V46 X2 V11 X27 V72 X8 V83 X13 V73 X7 V10 X86 V8 X88 V34 ",
   "X14 V10 X6 V9 X1 V45 X1 V14 X10 V29 X3 V32 X2 V22 X1 V14 X73 V7 X1 V2 X1 V44 X3 V1 X1 V2 ",
   "X1 V9 X8 V10 X6 V6 X1 V2 X1 V37 X1 V2 X1 V6 X7 V10 X6 V44 X4 V10 X246 V25 X7 V17 X1 V41 X3 ",
   "V29 X85 V1 X15 V50 X13 V923 X102 V111 X1 V5 X11 V196 X2636 V99 X13 V1072 X16 V22 X10 V3995 ",
   "X5 V583 X6841 V58 X1734 V569 X7 V31 X1 V10 X4 V81 X1 V10 X6 V30 X2 V6 X10 V70 X10 V10 X1 ",
   "V7 X1 V21 X5 V19 X432 V58 X198 M32 V59 X5 M25 X2 V25 X44 V75 X4 V57 X7 V17 X64 V5 X11 V7 ",
   "X9 V7382 X41 V32 X97 V115 X8701 V4 X1 V7 X1 V2 X1 V291 X15 V1 X29 V3 X2 V1 X14 V4 X8 V396 ",
   "X2308 V107 X5 V13 X3 V9 X7 V10 X2 V4 I4 X3932 V214 M36 V3 X3 V436 X6 V23 X15 V17 X15 V46 ",
   "X2 V23 X9 V116 X60 V246 X10 V39 X2 V53 M7 V14 I8 V64 M6 V42 X21 V70 X122 V20 X12 V20 X12 ",
   "V87 X9 V25 X135 M85 X1 M71 X1 M2 X2 M1 X2 M2 X2 M4 X1 M12 X1 M1 X1 M7 X1 M65 X1 M4 X2 M8 ",
   "X1 M7 X1 M28 X1 M4 X1 M5 X1 M1 X3 M7 X1 M340 X2 M292 X2 M50 V652 X15 V5 X1 V15 X1104 V31 ",
   "X6 V6 X213 V7 X1 V17 X2 V7 X1 V2 X1 V5 X5 M62 X33 V1 X112 V45 X3 V14 X2 V10 X4 V2 X320 V31 ",
   "X17 V58 X5 V1 X464 V42 X214 V43 X4 V1 X192 V31 X1 V22 X8 V2 X224 V7 X1 V4 X1 V2 X1 V15 X1 ",
   "V197 X2 V16 X41 M34 V42 X4 V10 X4 V2 X785 V68 X76 V61 X194 M4 X1 M27 X1 M2 X1 M1 X2 M1 X1 ",
   "M10 X1 M4 X1 M1 X1 M1 X6 M1 X4 M1 X1 M1 X1 M1 X1 M3 X1 M2 X1 M1 X2 M1 X1 M1 X1 M1 X1 M1 X1 ",
   "M1 X1 M2 X1 M1 X2 M4 X1 M7 X1 M4 X1 M4 X1 M1 X1 M10 X1 M17 X5 M3 X1 M5 X1 M17 X52 V2 X270 ",
   "V44 X4 V100 X12 V15 X2 V15 X1 V15 X1 V37 X11 M10 V5 M31 V1 M32 V26 M3 V35 M1 V29 X56 V26 ",
   "M3 X13 M44 X4 M9 X7 M2 X14 V6 X154 V985 X3 V17 X3 V13 X3 V218 X6 V12 X4 V1 X15 V12 X4 V56 ",
   "X8 V10 X6 V40 X8 V30 X2 V12 X4 V2 X14 V9 X39 V344 X8 V14 X2 V13 X3 V11 X3 V57 X1 V1 X4 V16 ",
   "X2 V12 X4 V10 X7 V147 X1 V92 M10 V1 X1029 V42720 X32 V4382 X2 V5774 X2 V7473 X15 V622 ",
   "X2466 M542 X1506 V4939 X5 V8490 X707718 I240 X196112"])

/-- Reads runs: the first code point and the status of each. -/
def runsOf (s : String) : Array (Nat × HostStatus) :=
  let step (state : Nat × HostStatus × Nat × Array (Nat × HostStatus)) (c : Char) :
      Nat × HostStatus × Nat × Array (Nat × HostStatus) :=
    let (start, status, length, runs) := state
    if c.isDigit then (start, status, 10 * length + (c.toNat - '0'.toNat), runs)
    else match letters.lookup c with
      | some next => (start + length, next, 0, runs.push (start + length, next))
      | none => state
  (s.toList.foldl step (0, .valid, 0, #[])).2.2.2

def runs : Array (Nat × HostStatus) := runsOf written

def ofChar (c : Char) : HostStatus :=
  ((Text.lastAtMost runs (fun run => run.1) c.toNat).map Prod.snd).getD .disallowed

end HostStatus

/-- Runs of characters outside ASCII that stand for one of ASCII, as text: the gap before the run,
its length and the image of its first character. -/
def asciiFormsWritten : String := (String.join
  ["170 1 97 7 2 50 5 1 49 0 1 111 196 1 115 304 1 104 1 1 106 0 1 114 3 1 119 0 1 121 ",
   "40 1 108 0 1 115 0 1 120 154 1 59 6573 1 97 1 1 98 1 2 100 1 8 103 1 1 111 1 1 112 0 1 114 ",
   "0 2 116 0 1 119 0 1 97 3 1 98 0 2 100 3 1 103 1 1 107 0 1 109 1 1 111 3 1 112 0 2 116 ",
   "2 1 118 6 1 105 0 1 114 0 2 117 54 1 99 3 1 102 26 1 122 563 1 96 128 1 48 0 1 105 2 6 52 ",
   "0 1 43 1 1 61 0 2 40 0 1 110 0 10 48 0 1 43 1 1 61 0 2 40 1 1 97 0 1 101 0 1 111 0 1 120 ",
   "1 1 104 0 4 107 0 1 112 0 2 115 101 1 99 7 2 103 0 1 104 0 1 104 0 1 104 1 1 105 0 1 105 ",
   "0 1 108 0 1 108 1 1 110 3 3 112 0 1 114 0 1 114 6 1 122 3 1 122 1 1 107 1 2 98 1 1 101 ",
   "0 2 101 1 1 109 0 1 111 4 1 105 11 1 100 0 2 100 0 2 105 22 1 105 3 1 118 4 1 120 2 1 108 ",
   "0 2 99 0 1 109 0 1 105 3 1 118 4 1 120 2 1 108 0 2 99 0 1 109 736 9 49 77 26 97 0 26 97 ",
   "0 1 48 1937 1 106 0 1 118 900 1 46 30702 1 115 0 1 99 0 1 102 0 1 113 21300 1 43 742 1 44 ",
   "3 1 59 0 1 33 29 1 95 0 1 95 0 2 40 0 1 123 0 1 125 20 1 95 0 1 95 0 1 95 0 1 44 3 1 59 ",
   "2 1 33 1 2 40 0 1 123 0 1 125 3 1 38 0 2 42 0 1 45 2 1 61 2 1 36 151 2 33 1 1 36 1 9 38 ",
   "1 10 48 1 1 59 1 1 61 3 26 97 4 29 95 1 2 125 2 1 46 2115 1 113 50480 26 97 0 10 48 ",
   "1798 26 97 0 26 97 0 26 97 0 7 97 1 18 105 0 26 97 0 26 97 0 1 97 1 2 99 2 1 103 2 2 106 ",
   "2 4 110 1 8 115 0 4 97 1 1 102 1 7 104 1 11 112 0 26 97 0 26 97 0 2 97 1 4 100 2 8 106 ",
   "1 7 115 1 26 97 0 2 97 1 4 100 1 5 105 1 1 111 3 7 115 1 26 97 0 26 97 0 26 97 0 26 97 ",
   "0 26 97 0 26 97 0 26 97 0 26 97 0 26 97 0 26 97 0 26 97 0 26 97 0 26 97 298 10 48 0 10 48 ",
   "0 10 48 0 10 48 0 10 48 6443 1 99 0 1 114 3 26 97 2726 10 48"])

/-- Reads runs: first code point, length and first image. -/
def asciiFormsOf (s : String) : Array (Nat × Nat × Nat) :=
  let rec build : List Nat → Nat → Array (Nat × Nat × Nat) → Array (Nat × Nat × Nat)
    | gap :: length :: image :: rest, start, runs =>
      build rest (start + gap + length) (runs.push (start + gap, length, image))
    | _, _, runs => runs
  build (Text.numbers s) 0 #[]

def asciiForms : Array (Nat × Nat × Nat) := asciiFormsOf asciiFormsWritten

/-- The character of ASCII that a character stands for, if there is one. -/
def asciiForm? (c : Char) : Option Char :=
  match Text.lastAtMost asciiForms (fun run => run.1) c.toNat with
  | some (first, length, image) =>
    if c.toNat < first + length then some (Char.ofNat (image + (c.toNat - first))) else none
  | none => none

end ResourceApi.Uri
