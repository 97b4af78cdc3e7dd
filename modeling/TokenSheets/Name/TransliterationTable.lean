import TokenSheets.Name.Transliteration

/-!
# An excerpt of the transliteration table

ASCII texts for characters of other scripts and for signs, as runs of neighbouring characters. This
is a part of the table that names are made with, for the executable alone: a character in no run has
no text here.
-/

namespace TokenSheets.Name

/-- The texts of neighbouring characters. -/
structure TransliterationRun where
  /-- The first character. -/
  first : Nat
  /-- The texts of the first character and of those behind it. -/
  texts : List String

/-- The runs, in the order of their characters. -/
def transliterationRuns : List TransliterationRun := [
  ⟨0x7F, ["", "", "", "", "", "", "", "", "", "", "", "", "", "", "", "", "", "", "", "", "", "",
    "", "", "", "", "", "", "", "", "", "", "", " ", "!", "C/", "PS", "$?", "Y=", "|", "SS",
    "\"", "(c)", "a", "<<", "!", "", "(r)", "-", "deg", "+-", "2", "3", "'", "u", "P", "*", ",",
    "1", "o", ">>", "1/4", "1/2", "3/4", "?", "A", "A", "A", "A", "A", "A", "AE", "C", "E", "E",
    "E", "E", "I", "I", "I", "I", "D", "N", "O", "O", "O", "O", "O", "x", "O", "U", "U", "U",
    "U", "Y", "Th", "ss", "a", "a", "a", "a", "a", "a", "ae", "c", "e", "e", "e", "e", "i", "i",
    "i", "i", "d", "n", "o", "o", "o", "o", "o", "/", "o", "u", "u", "u", "u", "y", "th", "y",
    "A", "a", "A", "a", "A", "a", "C", "c", "C", "c", "C", "c", "C", "c", "D", "d", "D", "d",
    "E", "e", "E", "e", "E", "e", "E", "e", "E", "e", "G", "g", "G", "g", "G", "g", "G", "g",
    "H", "h", "H", "h", "I", "i", "I", "i", "I", "i", "I", "i", "I", "i", "IJ", "ij", "J", "j",
    "K", "k", "k", "L", "l", "L", "l", "L", "l", "L", "l", "L", "l", "N", "n", "N", "n", "N",
    "n", "'n", "ng", "NG", "O", "o", "O", "o", "O", "o", "OE", "oe", "R", "r", "R", "r", "R",
    "r", "S", "s", "S", "s", "S", "s", "S", "s", "T", "t", "T", "t", "T", "t", "U", "u", "U",
    "u", "U", "u", "U", "u", "U", "u", "U", "u", "W", "w", "Y", "y", "Y", "Z", "z", "Z", "z",
    "Z", "z", "s"]⟩,
  ⟨0x1C4, ["DZ"]⟩,
  ⟨0x233, ["y"]⟩,
  ⟨0x2E5, ["5"]⟩,
  ⟨0x300, List.replicate 99 ""⟩,
  ⟨0x391, ["A", "B", "G", "D", "E", "Z", "E", "Th", "I", "K", "L", "M", "N", "Ks", "O", "P", "R"]⟩,
  ⟨0x3A3, ["S", "T", "U", "Ph", "Kh", "Ps", "O", "I", "U", "a", "e", "e", "i", "u", "a", "b",
    "g", "d", "e", "z", "e", "th", "i", "k", "l", "m", "n", "x", "o", "p", "r", "s", "s", "t",
    "u", "ph", "kh", "ps", "o", "i", "u", "o", "u", "o"]⟩,
  ⟨0x401, ["Io", "Dj", "Gj", "E", "Dz", "I", "Yi", "J", "Lj", "Nj", "Tsh", "Kj", "I", "U", "Dzh",
    "A", "B", "V", "G", "D", "E", "Zh", "Z", "I", "I", "K", "L", "M", "N", "O", "P", "R", "S",
    "T", "U", "F", "Kh", "Ts", "Ch", "Sh", "Shch", "'", "Y", "'", "E", "Iu", "Ia", "a", "b", "v",
    "g", "d", "e", "zh", "z", "i", "i", "k", "l", "m", "n", "o", "p", "r", "s", "t", "u", "f",
    "kh", "ts", "ch", "sh", "shch", "'", "y", "'", "e", "iu", "ia", "ie", "io", "dj", "gj", "ie",
    "dz", "i", "yi", "j", "lj", "nj", "tsh", "kj", "i", "u", "dzh"]⟩,
  ⟨0x49C, ["K'"]⟩,
  ⟨0x5D5, ["v"]⟩,
  ⟨0x5D9, ["y"]⟩,
  ⟨0x5DC, ["l", "m"]⟩,
  ⟨0x5E9, ["sh"]⟩,
  ⟨0x608, ["r"]⟩,
  ⟨0x627, ["", "b"]⟩,
  ⟨0x62D, ["H"]⟩,
  ⟨0x631, ["r"]⟩,
  ⟨0x645, ["m"]⟩,
  ⟨0x663, ["3"]⟩,
  ⟨0x732, ["a"]⟩,
  ⟨0x1E9E, ["Ss"]⟩,
  ⟨0x200B, [" "]⟩,
  ⟨0x200D, [""]⟩,
  ⟨0x2013, ["-", "--"]⟩,
  ⟨0x2018, ["'", "'"]⟩,
  ⟨0x201C, ["\"", "\""]⟩,
  ⟨0x2022, ["*"]⟩,
  ⟨0x2026, ["..."]⟩,
  ⟨0x2028, ["\n"]⟩,
  ⟨0x20AC, ["EUR"]⟩,
  ⟨0x2122, ["tm"]⟩,
  ⟨0x212A, ["K"]⟩,
  ⟨0x2163, ["IV"]⟩,
  ⟨0x2192, ["-"]⟩,
  ⟨0x2212, ["-"]⟩,
  ⟨0x2460, ["1"]⟩,
  ⟨0x24B6, ["A"]⟩,
  ⟨0x2603, ["snowman "]⟩,
  ⟨0x2605, ["*"]⟩,
  ⟨0x2665, ["hearts "]⟩,
  ⟨0x2713, ["OK"]⟩,
  ⟨0x3000, [" "]⟩,
  ⟨0x3053, ["ko"]⟩,
  ⟨0x3061, ["ti"]⟩,
  ⟨0x306B, ["ni"]⟩,
  ⟨0x306F, ["ha"]⟩,
  ⟨0x3093, ["n"]⟩,
  ⟨0x30A1, ["a"]⟩,
  ⟨0x30A4, ["i"]⟩,
  ⟨0x30AB, ["ka"]⟩,
  ⟨0x30BF, ["ta"]⟩,
  ⟨0x30CA, ["na"]⟩,
  ⟨0x30D5, ["hu"]⟩,
  ⟨0x30DC, ["bo"]⟩,
  ⟨0x30EB, ["ru"]⟩,
  ⟨0x30F3, ["n"]⟩,
  ⟨0x4E2D, ["Zhong "]⟩,
  ⟨0x4E3B, ["Zhu "]⟩,
  ⟨0x4EA4, ["Jiao "]⟩,
  ⟨0x50CF, ["Xiang "]⟩,
  ⟨0x51FA, ["Chu "]⟩,
  ⟨0x529B, ["Li "]⟩,
  ⟨0x53D6, ["Qu "]⟩,
  ⟨0x53D8, ["Bian "]⟩,
  ⟨0x5486, ["Pao "]⟩,
  ⟨0x56FD, ["Guo "]⟩,
  ⟨0x591A, ["Duo "]⟩,
  ⟨0x5927, ["Da "]⟩,
  ⟨0x597D, ["Hao "]⟩,
  ⟨0x5B57, ["Zi "]⟩,
  ⟨0x5B9A, ["Ding "]⟩,
  ⟨0x5C0F, ["Xiao "]⟩,
  ⟨0x6309, ["An "]⟩,
  ⟨0x63D0, ["Ti "]⟩,
  ⟨0x6587, ["Wen "]⟩,
  ⟨0x6599, ["Liao "]⟩,
  ⟨0x65E5, ["Ri "]⟩,
  ⟨0x672C, ["Ben "]⟩,
  ⟨0x6807, ["Biao "]⟩,
  ⟨0x6B22, ["Huan "]⟩,
  ⟨0x6CE8, ["Zhu "]⟩,
  ⟨0x6D1C, ["Luo"]⟩,
  ⟨0x6D88, ["Xiao "]⟩,
  ⟨0x7684, ["De "]⟩,
  ⟨0x786E, ["Que "]⟩,
  ⟨0x7D20, ["Su "]⟩,
  ⟨0x884C, ["Xing "]⟩,
  ⟨0x8981, ["Yao "]⟩,
  ⟨0x8D44, ["Zi "]⟩,
  ⟨0x8DDD, ["Ju "]⟩,
  ⟨0x8FCE, ["Ying "]⟩,
  ⟨0x91CA, ["Shi "]⟩,
  ⟨0x91CF, ["Liang "]⟩,
  ⟨0x94AE, ["Niu "]⟩,
  ⟨0x957F, ["Chang "]⟩,
  ⟨0x95F4, ["Jian "]⟩,
  ⟨0x9898, ["Ti "]⟩,
  ⟨0xAD6D, ["gug"]⟩,
  ⟨0xB155, ["nyeong"]⟩,
  ⟨0xC548, ["an"]⟩,
  ⟨0xC5B4, ["eo"]⟩,
  ⟨0xD55C, ["han"]⟩,
  ⟨0xFB00, ["ff", "fi"]⟩,
  ⟨0xFC6D, ["bn"]⟩,
  ⟨0xFEB9, ["s"]⟩,
  ⟨0xFEFF, [""]⟩,
  ⟨0xFF01, ["!", "\"", "#", "$", "%", "&", "'", "(", ")", "*", "+", ",", "-", ".", "/", "0", "1",
    "2", "3", "4", "5", "6", "7", "8", "9", ":", ";", "<", "=", ">", "?", "@", "A", "B", "C", "D",
    "E", "F", "G", "H", "I", "J", "K", "L", "M", "N", "O", "P", "Q", "R", "S", "T", "U", "V", "W",
    "X", "Y", "Z", "[", "\\", "]", "^", "_", "`", "a", "b", "c", "d", "e", "f", "g", "h", "i", "j",
    "k", "l", "m", "n", "o", "p", "q", "r", "s", "t", "u", "v", "w", "x", "y", "z", "\x7b", "|",
    "\x7d", "~"]⟩,
  ⟨0x10400, ["E"]⟩,
  ⟨0x1D4B3, ["X"]⟩,
  ⟨0x1F3FD, [""]⟩,
  ⟨0x1F44B, ["wave "]⟩,
  ⟨0x1F44D, ["+1 "]⟩,
  ⟨0x1F600, ["grinning "]⟩]

/-- The table of the runs. -/
abbrev Transliteration.excerpt : Transliteration where
  table code := transliterationRuns.findSome? fun run =>
    if run.first ≤ code then run.texts[code - run.first]? else none

end TokenSheets.Name
