import ResourceApi.Text.RangeTable

/-!
The general category of characters. The table lists the code points in order as runs of one
category, each a letter for the category and the length of the run.
-/

namespace ResourceApi.Text

/-- The general categories. -/
inductive Category where
  | uppercaseLetter
  | lowercaseLetter
  | titlecaseLetter
  | modifierLetter
  | otherLetter
  | nonspacingMark
  | spacingMark
  | enclosingMark
  | decimalNumber
  | letterNumber
  | otherNumber
  | connectorPunctuation
  | dashPunctuation
  | openPunctuation
  | closePunctuation
  | initialPunctuation
  | finalPunctuation
  | otherPunctuation
  | mathSymbol
  | currencySymbol
  | modifierSymbol
  | otherSymbol
  | spaceSeparator
  | lineSeparator
  | paragraphSeparator
  | control
  | format
  | surrogate
  | privateUse
  | unassigned
  deriving DecidableEq, Repr, Inhabited

namespace Category

/-- All categories with their short names, in the order of the letters of the table. -/
def all : List (Category × String) :=
  [(.uppercaseLetter, "Lu"), (.lowercaseLetter, "Ll"), (.titlecaseLetter, "Lt"),
   (.modifierLetter, "Lm"), (.otherLetter, "Lo"), (.nonspacingMark, "Mn"),
   (.spacingMark, "Mc"), (.enclosingMark, "Me"), (.decimalNumber, "Nd"),
   (.letterNumber, "Nl"), (.otherNumber, "No"), (.connectorPunctuation, "Pc"),
   (.dashPunctuation, "Pd"), (.openPunctuation, "Ps"), (.closePunctuation, "Pe"),
   (.initialPunctuation, "Pi"), (.finalPunctuation, "Pf"), (.otherPunctuation, "Po"),
   (.mathSymbol, "Sm"), (.currencySymbol, "Sc"), (.modifierSymbol, "Sk"),
   (.otherSymbol, "So"), (.spaceSeparator, "Zs"), (.lineSeparator, "Zl"),
   (.paragraphSeparator, "Zp"), (.control, "Cc"), (.format, "Cf"), (.surrogate, "Cs"),
   (.privateUse, "Co"), (.unassigned, "Cn")]

/-- The runs of one category from the first code point to the last. -/
def runs : String :=
  (String.join
  ["Z32W1R3T1R3N1O1R1S1R1M1R2I10R2S3R2A26N1R1O1U1L1U1B26N1S1O1S1Z33W1R1T4V1R1U1V1E1P1S1a1V1U1V1S1",
   "K2U1B1R2U1K1E1Q1K3R1A23S1A7B24S1B8A1B1A1B1A1B1A1B1A1B1A1B1A1B1A1B1A1B1A1B1A1B1A1B1A1B1A1B1A1",
   "B1A1B1A1B1A1B1A1B1A1B1A1B1A1B1A1B1A1B1A1B1A1B1A1B1A1B2A1B1A1B1A1B1A1B1A1B1A1B1A1B1A1B2A1B1A1",
   "B1A1B1A1B1A1B1A1B1A1B1A1B1A1B1A1B1A1B1A1B1A1B1A1B1A1B1A1B1A1B1A1B1A1B1A1B1A1B1A1B1A1B1A2B1A1",
   "B1A1B3A2B1A1B1A2B1A3B2A4B1A2B1A3B3A2B1A2B1A1B1A1B1A2B1A1B2A1B1A2B1A3B1A1B1A2B2E1A1B3E4A1C1B1",
   "A1C1B1A1C1B1A1B1A1B1A1B1A1B1A1B1A1B1A1B1A1B2A1B1A1B1A1B1A1B1A1B1A1B1A1B1A1B1A1B2A1C1B1A1B1A3",
   "B1A1B1A1B1A1B1A1B1A1B1A1B1A1B1A1B1A1B1A1B1A1B1A1B1A1B1A1B1A1B1A1B1A1B1A1B1A1B1A1B1A1B1A1B1A1",
   "B1A1B1A1B1A1B1A1B1A1B1A1B7A2B1A2B2A1B1A4B1A1B1A1B1A1B1A1B69E2B26D18U4D12U14D5U7D1U1D1U17F112",
   "A1B1A1B1D1U1A1B1d2D1B3R1A1d4U2A1R1A3d1A1d1A2B1A17d1A9B35A1B2A3B3A1B1A1B1A1B1A1B1A1B1A1B1A1B1",
   "A1B1A1B1A1B1A1B1A1B5A1B1S1A1B1A2B2A51B48A1B1A1B1A1B1A1B1A1B1A1B1A1B1A1B1A1B1A1B1A1B1A1B1A1B1",
   "A1B1A1B1A1B1A1B1V1F5H2A1B1A1B1A1B1A1B1A1B1A1B1A1B1A1B1A1B1A1B1A1B1A1B1A1B1A1B1A1B1A1B1A1B1A1",
   "B1A1B1A1B1A1B1A1B1A1B1A1B1A1B1A1B1A1B1A2B1A1B1A1B1A1B1A1B1A1B1A1B2A1B1A1B1A1B1A1B1A1B1A1B1A1",
   "B1A1B1A1B1A1B1A1B1A1B1A1B1A1B1A1B1A1B1A1B1A1B1A1B1A1B1A1B1A1B1A1B1A1B1A1B1A1B1A1B1A1B1A1B1A1",
   "B1A1B1A1B1A1B1A1B1A1B1A1B1A1B1A1B1A1B1A1B1A1B1A1B1A1B1A1B1A1B1A1B1A1B1A1B1d1A38d2D1R6B41R1M1",
   "d2V2T1d1F45M1F1R1F2R1F2R1F1d8E27d4E4R2d11a6S3R2T1R2V2F11R1a1R3E32D1E10F21I10R4E2F1E99R1E1F7a1",
   "V1F6D2F2V1F4E2I10E3V2E1R14d1a1E1F1E30F27d2E89F11E1d14I10E33F9D2V1R3D1d2F1T2E22F4D1F9D1F3D1F5",
   "d2R15d1E25F3d2R1d1E11d5E24U1E7a2d5F9E41D1F24a1F32G1E54F1G1F1E1G3F8G4F1G2E1F7E10F2R2I10R1D1E15",
   "F1G2d1E8d2E2d2E22d1E7d1E1d3E4d2F1E1G3F4d2G2d2G2F1E1d8G1d4E2d1E3F2d2I10E2T2K6V1T1E1R1F1d2F2G1",
   "d1E6d4E2d2E22d1E7d1E2d1E2d1E2d2F1d1G3F2d4F2d2F3d3F1d7E4d1E1d7I10F2E3F1R1d10F2G1d1E9d1E3d1E22",
   "d1E7d1E2d1E5d2F1E1G3F5d1F2G1d1G2F1d2E1d15E2F2d2I10R1T1d7E1F6d1F1G2d1E8d2E2d2E22d1E7d1E2d1E5d2",
   "F1E1G1F1G1F4d2G2d2G2F1d7F2G1d4E2d1E3F2d2I10V1E1K6d10F1E1d1E6d3E3d1E4d3E2d1E1d1E2d3E2d3E3d3E12",
   "d4G2F1G2d3G3d1G3F1d2E1d6G1d14I10K3V6T1V1d5F1G3F1E8d1E3d1E23d1E16d2F1E1F3G4d1F3d1F4d7F2d1E3d1",
   "E2d2E2F2d2I10d7R1K7V1E1F1G2R1E8d1E3d1E23d1E10d1E5d2F1E1G1F1G5d1F1G2d1G2F2d7G2d5E3d1E2F2d2I10",
   "d1E2G1d12F2G2E9d1E3d1E41F2E1G3F4d1G3d1G3F1E1V1d4E3G1K7E3F2d2I10K9V1E6d1F1G2d1E18d3E24d1E9d1E1",
   "d2E7d3F1d4G3F3d1F1d1G8d6I10d2G2R1d12E48F1E2F7d4T1E6D1F8R1I10R2d37E2d1E1d1E5d1E24d1E1d1E10F1E2",
   "F9E1d2E5d1D1d1F7d1I10d2E4d32E1V3R15V1R1V3F2V6I10K10V1F1V1F1V1F1N1O1N1O1G2E8d1E36d4F14G1F5R1F2",
   "E5F11d1F36d1V8F1V6d1V2R5V4R2d37E43G2F4G1F6G1F2G2F2E1I10R6E6G2F2E4F3E1G3E2G7E3F4E13F1G2F2G6F1",
   "E1G1I10G3F1V2A38d1A1d5A1d2B43R1D1B3E329d1E4d2E7d1E1d1E4d2E41d1E4d2E33d1E4d2E7d1E1d1E4d2E15d1",
   "E57d1E4d2E67d2F3R9K20d3E16V10d6A86d2B6d2M1E620V1R1E17W1E26N1O1d3E75R3J3E8d7E18F3G1d9E19F2G1R2",
   "d9E18F2d12E13d1E3d1F2d12E52F2G1F7G8F1G2F11R3D1R3T1E1F1d2I10d6K10d6R6M1R4F3a1F1I10d6E35D1E53d7",
   "E5F2E34F1E1d5E70d10E31d1F3G4F2G3d4G2F1G6F3d4V1d3R2I10E30d2E5d11E44d4E26d6I10K1d3V34E23F2G2F1",
   "d2R2E53G1F1G1F7d1F1G1F1G2F8G6F10d2F1I10d6I10d6R7D1R6d2F14H1F31d2F12d20F4G1E47F1G1F5G1F1G5F1G2",
   "E8d1R2I10R7V10F9V9R3F2G1E30G1F4G2F2G1F3E2I10E44F1G1F2G3F1G1F3G2d8R4E36G8F8G2F2d3R5I10d3E3I10",
   "E30D6R2B9A1B1d5A43d2A3R8d8F3R1F13G1F7E4F1E6F1E2G1F2E1d5B44D63B13D1B34D37F64A1B1A1B1A1B1A1B1A1",
   "B1A1B1A1B1A1B1A1B1A1B1A1B1A1B1A1B1A1B1A1B1A1B1A1B1A1B1A1B1A1B1A1B1A1B1A1B1A1B1A1B1A1B1A1B1A1",
   "B1A1B1A1B1A1B1A1B1A1B1A1B1A1B1A1B1A1B1A1B1A1B1A1B1A1B1A1B1A1B1A1B1A1B1A1B1A1B1A1B1A1B1A1B1A1",
   "B1A1B1A1B1A1B1A1B1A1B1A1B1A1B1A1B1A1B1A1B1A1B1A1B1A1B1A1B1A1B1A1B1A1B1A1B1A1B1A1B1A1B1A1B1A1",
   "B1A1B9A1B1A1B1A1B1A1B1A1B1A1B1A1B1A1B1A1B1A1B1A1B1A1B1A1B1A1B1A1B1A1B1A1B1A1B1A1B1A1B1A1B1A1",
   "B1A1B1A1B1A1B1A1B1A1B1A1B1A1B1A1B1A1B1A1B1A1B1A1B1A1B1A1B1A1B1A1B1A1B1A1B1A1B1A1B1A1B1A1B1A1",
   "B1A1B1A1B1A1B1A1B9A8B6d2A6d2B8A8B8A8B6d2A6d2B8d1A1d1A1d1A1d1A1B8A8B14d2B8C8B8C8B8C8B5d1B2A4C1",
   "U1B1U3B3d1B2A4C1U3B4d2B2A4d1U3B8A5U3d2B3d1B2A4C1U2d1W11a5M6R2P1Q1N1P2Q1N1P1R8X1Y1a5W1R9P1Q1R4",
   "L2R3S1N1O1R11S1R1L1R10W1a5d1a10K1D1d2K6S3N1O1D1K10S3N1O1d1D13d3T34d14F13H4F1H3F12d15V2A1V4A1",
   "V2B1A3B2A3B1V1A1V2S1A5V6A1V1A1V1A1V1A4V1B1A4B1E4B1V2B2A2S5A1B4V1S1V2B1V1K16J35A1B1J4K1V2d4S5",
   "V5S2V4S1V2S1V2S1V7S1V31S2V2S1V1S1V31S268V8N1O1N1O1V20S2V7N1O1V81S1V30S25V40S6V72d22V11d21K60",
   "V78K22V183S1V9S1V54S8V111S1V248N1O1N1O1N1O1N1O1N1O1N1O1N1O1K30V44S5N1O1S31N1O1N1O1N1O1N1O1N1",
   "O1S16V256S131N1O1N1O1N1O1N1O1N1O1N1O1N1O1N1O1N1O1N1O1N1O1S63N1O1N1O1S32N1O1S258V48S21V2S6V39",
   "d2V138A48B48A1B1A3B2A1B1A1B1A1B1A4B1A1B2A1B6D2A3B1A1B1A1B1A1B1A1B1A1B1A1B1A1B1A1B1A1B1A1B1A1",
   "B1A1B1A1B1A1B1A1B1A1B1A1B1A1B1A1B1A1B1A1B1A1B1A1B1A1B1A1B1A1B1A1B1A1B1A1B1A1B1A1B1A1B1A1B1A1",
   "B1A1B1A1B1A1B1A1B1A1B1A1B1A1B1A1B1A1B1A1B1A1B1A1B1A1B1A1B1A1B2V6A1B1A1B1F3A1B1d5R4K1R2B38d1B1",
   "d5B1d2E56d7D1R1d14F1E23d9E7d1E7d1E7d1E7d1E7d1E7d1E7d1E7d1F32R2P1Q1P1Q1R3P1Q1R1P1Q1R9M1R2M1R1",
   "P1Q1R2P1Q1N1O1N1O1N1O1N1O1R5D1R10M2R4M1R1N1R13V2R3N1O1N1O1N1O1N1O1M1d34V26d1V89d12V214d26V16",
   "W1R3V1D1E1J1N1O1N1O1N1O1N1O1N1O1V2N1O1N1O1N1O1N1O1M1N1O2V1J9F4G2M1D5V2J3D1E1R1V2d1E86d2F2U2D2",
   "E1M1E90R1D3E1d5E43d1E94d1V2K4V10E32V38d9V1E16V31d1K10V30K8V1K15V32K10V39K15V320E6592V64E21013",
   "D1E1143d3V55d9E40D6R2E268D1R3E16I10E2d20A1B1A1B1A1B1A1B1A1B1A1B1A1B1A1B1A1B1A1B1A1B1A1B1A1B1",
   "A1B1A1B1A1B1A1B1A1B1A1B1A1B1A1B1A1B1A1B1E1F1H3R1F10R1D1A1B1A1B1A1B1A1B1A1B1A1B1A1B1A1B1A1B1A1",
   "B1A1B1A1B1A1B1A1B1D2F2E70J10F2R6d8U23D9U2A1B1A1B1A1B1A1B1A1B1A1B1A1B3A1B1A1B1A1B1A1B1A1B1A1B1",
   "A1B1A1B1A1B1A1B1A1B1A1B1A1B1A1B1A1B1A1B1A1B1A1B1A1B1A1B1A1B1A1B1A1B1A1B1A1B1A1B1A1B1A1B1A1B1",
   "A1B1A1B1D1B8A1B1A1B1A2B1A1B1A1B1A1B1A1B1D1U2A1B1A1B1E1A1B1A1B3A1B1A1B1A1B1A1B1A1B1A1B1A1B1A1",
   "B1A1B1A1B1A5B1A5B1A1B1A1B1A1B1A1B1A1B1A1B1A1B1A4B1A1B1A2B1A1B1A1B1A1B1A1B1A1B1A1B1A1B1A1d20D4",
   "A1B1E1D2B1E7F1E3F1E4F1E23G2F2G1V4F1d3K6V2T1V1d6E52R4d8G2E50G16F2d8R2I10d6F18E6R3E1R1E2F1I10",
   "E28F8R2E23F11G2d11R1E29d3F3G1E47F1G2F4G2F2G3R13d1D1I10d4R2E5F1D1E9I10E5d1E41F6G2F2G2F2d9E3F1",
   "E8F1G1d2I10d2R4E16D1E6V3E1G1F1G1E50F1E1F3E2F2E5F2E1F1E1d24E2D1R2E11G1F2G2R2E1D2G1F1d10E6d2E6",
   "d2E6d9E7d1E7d1B43U1D4B9D1U2d4B80E35G2F1G2F1G2R1G1F1d2I10d6E11172d12E23d4E49d4b2048c6400E366d2",
   "E106d38B7d12B5d5E1F1E10S1E13d1E5d1E1d1E2d1E2d1E108U17V16E363O1N1V16E64V2E54V8d32E12T1V3F16R7",
   "N1O1R1d6F16R1M2L2N1O1N1O1N1O1N1O1N1O1N1O1N1O1N1O1R2N1O1R4L3R3d1R4M1N1O1N1O1N1O1R3S1M1S3d1R1T1",
   "R2d4E5d1E135d2a1d1R3T1R3N1O1R1S1R1M1R2I10R2S3R2A26N1R1O1U1L1U1B26N1S1O1S1N1O1R1N1O1R2E10D1E45",
   "D2E31d3E6d2E6d2E6d2E3d3T2S1U1V1T2d1V1S4V2d10a3V2d2E12d1E26d1E19d1E2d1E15d2E14d34E123d5R3d4K45",
   "d3V9J53K4V17K2V3d1V13d3V1d47V45F1d130E29d3E49d15F1K27d4E32K4d9E20J1E8J1d5E38F5d5E30d1R1E36d4",
   "E8R1J5d42A40B40E78d2I10d6A36d4B36d4E40d8E52d11R1A11d1A15d1A7d1A2d1B11d1B15d1B7d1B2d3E52d12",
   "E311d9E22d10E8d24D6d1D42d1D9d69E6d2E1d1E44d1E2d3E1d2E23d1R1K8E23V2K7E31d8K9d48E19d1E2d5K5E22",
   "K6d3R1E26d5R1E26d38E56d4K2E2K16d2K46E1F3d1F2d5F4E4d1E3d1E29d2F3d4F1K9d7R9d7E29K2R1E29K3d32E8",
   "V1E28F2d4K5R7d9E54d3R7E22d2K8E19d5K8E18d7R4d12K7d80E73d55A51d13B51d7K6E36F4d8I10d6I10E4D1E1",
   "A22d3F5M1D1B22d8S2d208K31d1E42d1F2M1d2E2d16E3D1E2d8R1V8d33F6E29K10E1d8E22F11K4R5d22E18F4R4d38",
   "E21K7d20E23d9G1F1G1E53F15R7d4K20I10F1E2F2E1d9F3G1E45G3F4G2F2R2a1R4F1d10a1d2E25d7I10d6F3E36F5",
   "G1F8d1I10R4E1G2E1d8E35F1R2E1d9F2G1E48G3F9G2E4R4F4R1G1F1I10E1R1E1R3d1K20d11E18d1E25G3F3G2F1G1",
   "F2R6F1E2F1d62E7d1E1d1E4d1E15d1E10R1d6E47F1G3F8d5I10d6F2G2d1E8d2E2d2E22d1E7d1E2d1E5d1F2E1G2F1",
   "G4d2G2d2G3d2E1d6G1d5E5G2d2F7d3F5d11E10d1E1d2E1d1E38d1E1G3F6d1G1d2G1d1G4d1G2F1G1F1E1F1E1R2d1R2",
   "d8F2d29E53G3F8G2F3G1F1E4R5I10R2d1R1F1E3d30E48G3F6G1F1G4F2G1F2E2R1E1d8I10d166E47G3F4d2G4F2G1F2",
   "R23E4F2d34E48G3F8G2F1G1F2R3E1d11I10d6R13d19E43F1G1F1G2F6G1F1E1R1d6I10d6I20d28E27d2F1G1F1G2F4",
   "G1F5d4I10K2R3V1E7d185E44G3F9G1F2R1d100A32B32I10K9d12E8d2E1d2E8d1E2d1E24G6d1G2d2F2G1F1E1G1E1G1",
   "F1R3d9I10d70E8d2E39G3F4d2F2G4F1E1R1E1G1d27E1F10E40F6G1E1F4R8F1d8E1F6G2F3E46F13G1F2R3E1R5d13",
   "E73d7R10d86F1G1F3G1F1G1d88E33R1d14I10d6E9d1E37G1F7d1F6G1F1E1R5d10I10K19d3R2E30d2F22d1G1F7G1F2",
   "G1F2d73E7d1E2d1E38F6d3F1d1F2d1F7E1F1d8I10d6E6d1E2d1E32G5d1F2d1G2F1G1F1E1d7I10d6E41D1E2d4I10",
   "d246E19F2G2R2d7F2E1G1E13d1E34G2F5d3G2F1G1F1R13I10F1d85E1d15K21V8T4V17d13R1E922d102J111d1R5d11",
   "E196d2636E97R2d13E1072a16F1E6F15d10E3995d5E583d6841E30F12G3F3I10d1734E569d7E31d1I10d4R2E79d1",
   "I10d6E30d2F5R1d10E48F7R5V4D4R1V1d10I10d1K7d1E21d5E19d432D3E40D2R3I10d198A32B32K23R4d5A25d2B25",
   "d44E75d4F1E1G55d7F4D13d64D2R1D1F1d11G2D2J3d9E7382d41E32d97E115d8701D4d1D7d1D2d1E291d15E1d29E3",
   "d2E1d14E4d8E396d2308E107d5E13d3E9d7E10d2V1F2R1a4d3932V240I10V3d3V436d6V23d15V16S1d15F46d2F23",
   "d9V116d60V246d10V39d2V60G2F3V3G6a8F8V2F7V30F4V61d21V66F3V1d122K20d12K20d12V87d9K25d135A26B26",
   "A26B7d1B18A26B26A1d1A2d2A1d2A2d2A4d1A8B4d1B1d1B7d1B11A26B26A2d1A4d2A8d1A7d1B26A2d1A4d1A5d1A1",
   "d3A7d1B26A26B26A26B26A26B26A26B26A26B26A26B28d2A25S1B25S1B6A25S1B25S1B6A25S1B25S1B6A25S1B25S1",
   "B6A25S1B25S1B6A1B1d2I50V512F55V4F50V8F1V14F1V2R5d15F5d1F15d1104B10E1B20d6B6d213F7d1F17d2F7d1",
   "F2d1F5d5D62d33F1d112E45d3F7D7d2I10d4E1V1d320E30F1d17E44F4I10d5T1d464E27D1F4I10d214E30F2E1I10",
   "d4R1d192E31d1E3F1E2F1E7F2E5F1d8E1D1d224E7d1E4d1E2d1E15d1E197d2K9F7d41A34B34F7D1d4I10d4R2d785",
   "K59V1K3T1K4d76K45V1K15d194E4d1E27d1E2d1E1d2E1d1E10d1E4d1E1d1E1d6E1d4E1d1E1d1E1d1E3d1E2d1E1d2",
   "E1d1E1d1E1d1E1d1E1d1E2d1E1d2E4d1E7d1E4d1E4d1E1d1E10d1E17d5E3d1E5d1E17d52S2d270V44d4V100d12V15",
   "d2V15d1V15d1V37d10K13V161d56V29d13V44d4V9d7V2d14V6d154V251U5V729d3V17d3V13d3V218d6V12d4V1d15",
   "V12d4V56d8V10d6V40d8V30d2V12d4V2d14S9d39V344d8V14d2V13d3V11d3V57d1V1d4V16d2V12d4V10d7V147d1",
   "V92I10V1d1029E42720d32E4382d2E5774d2E7473d15E622d2466E542d1506E4939d5E8490d707463a1d30a96d128",
   "F240d65040c65534d2c65534d2"])

/-- The category that a letter of the table stands for. -/
def ofLetter (c : Char) : Category :=
  let index := if c.toNat < 'a'.toNat then c.toNat - 'A'.toNat else c.toNat - 'a'.toNat + 26
  (all[index]?.map Prod.fst).getD .unassigned

/-- The first code points of the runs with their categories. -/
def table : Array (Nat × Category) :=
  let step (state : Array (Nat × Category) × Nat × Nat) (c : Char) :
      Array (Nat × Category) × Nat × Nat :=
    let (entries, start, length) := state
    if c.isDigit then (entries, start, 10 * length + (c.toNat - '0'.toNat))
    else (entries.push (start + length, ofLetter c), start + length, 0)
  (runs.toList.foldl step (#[], 0, 0)).1

/-- The category of a character. -/
def ofChar (c : Char) : Category :=
  match lastAtMost table (fun entry => entry.1) c.toNat with
  | some (_, category) => category
  | none => .unassigned

end Category

end ResourceApi.Text
