import PropertyGraph.Text.CharClass

/-!
Columns that a text fills when it is shown. A character by itself fills none if it combines with
its neighbours or is ignorable, two if it is wide, three for the Khmer sign that stands for three,
and one otherwise. Characters are counted from the last to the first, for what a character stands
before decides how it is shown: a line break counts once, letters join to signs of their scripts,
and pictures to one picture of two columns.
-/

set_option maxRecDepth 10000

namespace PropertyGraph.Text

/-- East Asian width `W` and `F`, less the code points of no width. -/
def wide : Boundaries :=
  [
    4352, 4448, 8986, 8988, 9001, 9003, 9193, 9197, 9200, 9201, 9203, 9204, 9725, 9727, 9748, 9750,
    9800, 9812, 9855, 9856, 9875, 9876, 9889, 9890, 9898, 9900, 9917, 9919, 9924, 9926, 9934, 9935,
    9940, 9941, 9962, 9963, 9970, 9972, 9973, 9974, 9978, 9979, 9981, 9982, 9989, 9990, 9994, 9996,
    10024, 10025, 10060, 10061, 10062, 10063, 10067, 10070, 10071, 10072, 10133, 10136, 10160,
    10161, 10175, 10176, 11035, 11037, 11088, 11089, 11093, 11094, 11904, 11930, 11931, 12020,
    12032, 12246, 12272, 12330, 12336, 12351, 12353, 12439, 12443, 12544, 12549, 12592, 12593,
    12644, 12645, 12687, 12688, 12772, 12783, 12831, 12832, 12872, 12880, 19904, 19968, 42125,
    42128, 42183, 43360, 43389, 44032, 55204, 63744, 64256, 65040, 65050, 65072, 65107, 65108,
    65127, 65128, 65132, 65281, 65377, 65504, 65511, 94176, 94180, 94192, 94194, 94208, 100344,
    100352, 101590, 101632, 101641, 110576, 110580, 110581, 110588, 110589, 110591, 110592, 110883,
    110898, 110899, 110928, 110931, 110933, 110934, 110948, 110952, 110960, 111356, 126980, 126981,
    127183, 127184, 127374, 127375, 127377, 127387, 127488, 127491, 127504, 127548, 127552, 127561,
    127568, 127570, 127584, 127590, 127744, 127777, 127789, 127798, 127799, 127869, 127870, 127892,
    127904, 127947, 127951, 127956, 127968, 127985, 127988, 127989, 127992, 128063, 128064, 128065,
    128066, 128253, 128255, 128318, 128331, 128335, 128336, 128360, 128378, 128379, 128405, 128407,
    128420, 128421, 128507, 128592, 128640, 128710, 128716, 128717, 128720, 128723, 128725, 128728,
    128732, 128736, 128747, 128749, 128756, 128765, 128992, 129004, 129008, 129009, 129292, 129339,
    129340, 129350, 129351, 129536, 129648, 129661, 129664, 129673, 129680, 129726, 129727, 129734,
    129742, 129756, 129760, 129769, 129776, 129785, 131072, 196606, 196608, 262142]

/-- Code points that extend what stands before them, ignorable ones, the inner parts of a Hangul
syllable, and signs written around what follows. -/
def zeroWidth : Boundaries :=
  [
    173, 174, 768, 880, 1155, 1162, 1425, 1470, 1471, 1472, 1473, 1475, 1476, 1478, 1479, 1480,
    1541, 1542, 1552, 1563, 1564, 1565, 1611, 1632, 1648, 1649, 1750, 1757, 1759, 1765, 1767, 1769,
    1770, 1774, 1807, 1808, 1809, 1810, 1840, 1867, 1958, 1969, 2027, 2036, 2045, 2046, 2070, 2074,
    2075, 2084, 2085, 2088, 2089, 2094, 2137, 2140, 2192, 2194, 2200, 2208, 2250, 2307, 2362, 2363,
    2364, 2365, 2369, 2377, 2381, 2382, 2385, 2392, 2402, 2404, 2433, 2434, 2492, 2493, 2494, 2495,
    2497, 2501, 2509, 2510, 2519, 2520, 2530, 2532, 2558, 2559, 2561, 2563, 2620, 2621, 2625, 2627,
    2631, 2633, 2635, 2638, 2641, 2642, 2672, 2674, 2677, 2678, 2689, 2691, 2748, 2749, 2753, 2758,
    2759, 2761, 2765, 2766, 2786, 2788, 2810, 2816, 2817, 2818, 2876, 2877, 2878, 2880, 2881, 2885,
    2893, 2894, 2901, 2904, 2914, 2916, 2946, 2947, 3006, 3007, 3008, 3009, 3021, 3022, 3031, 3032,
    3072, 3073, 3076, 3077, 3132, 3133, 3134, 3137, 3142, 3145, 3146, 3150, 3157, 3159, 3170, 3172,
    3201, 3202, 3260, 3261, 3263, 3265, 3266, 3267, 3270, 3273, 3274, 3278, 3285, 3287, 3298, 3300,
    3328, 3330, 3387, 3389, 3390, 3391, 3393, 3397, 3405, 3407, 3415, 3416, 3426, 3428, 3457, 3458,
    3530, 3531, 3535, 3536, 3538, 3541, 3542, 3543, 3551, 3552, 3633, 3634, 3636, 3643, 3655, 3663,
    3761, 3762, 3764, 3773, 3784, 3791, 3864, 3866, 3893, 3894, 3895, 3896, 3897, 3898, 3953, 3967,
    3968, 3973, 3974, 3976, 3981, 3992, 3993, 4029, 4038, 4039, 4141, 4145, 4146, 4152, 4153, 4155,
    4157, 4159, 4184, 4186, 4190, 4193, 4209, 4213, 4226, 4227, 4229, 4231, 4237, 4238, 4253, 4254,
    4448, 4608, 4957, 4960, 5906, 5909, 5938, 5940, 5970, 5972, 6002, 6004, 6068, 6070, 6071, 6078,
    6086, 6087, 6089, 6100, 6109, 6110, 6155, 6160, 6277, 6279, 6313, 6314, 6432, 6435, 6439, 6441,
    6450, 6451, 6457, 6460, 6679, 6681, 6683, 6684, 6742, 6743, 6744, 6751, 6752, 6753, 6754, 6755,
    6757, 6765, 6771, 6781, 6783, 6784, 6832, 6863, 6912, 6916, 6964, 6974, 6978, 6980, 7019, 7028,
    7040, 7042, 7074, 7078, 7080, 7082, 7083, 7086, 7142, 7143, 7144, 7146, 7149, 7150, 7151, 7154,
    7212, 7220, 7222, 7224, 7376, 7379, 7380, 7393, 7394, 7401, 7405, 7406, 7412, 7413, 7416, 7418,
    7616, 7680, 8203, 8208, 8234, 8239, 8288, 8304, 8400, 8433, 11503, 11506, 11744, 11776, 12330,
    12336, 12441, 12443, 12644, 12645, 42607, 42611, 42612, 42622, 42654, 42656, 42736, 42738,
    43010, 43011, 43014, 43015, 43019, 43020, 43045, 43047, 43052, 43053, 43204, 43206, 43232,
    43250, 43258, 43259, 43263, 43264, 43302, 43310, 43335, 43346, 43392, 43395, 43443, 43444,
    43446, 43450, 43452, 43454, 43493, 43494, 43561, 43567, 43569, 43571, 43573, 43575, 43587,
    43588, 43596, 43597, 43644, 43645, 43696, 43697, 43698, 43701, 43703, 43705, 43710, 43712,
    43713, 43714, 43756, 43758, 43766, 43767, 44005, 44006, 44008, 44009, 44013, 44014, 55216,
    55239, 55243, 55292, 64286, 64287, 65024, 65040, 65056, 65072, 65279, 65280, 65438, 65441,
    65520, 65529, 66045, 66046, 66272, 66273, 66422, 66427, 68097, 68100, 68101, 68103, 68108,
    68112, 68152, 68155, 68159, 68160, 68325, 68327, 68900, 68904, 69291, 69293, 69373, 69376,
    69446, 69457, 69506, 69510, 69633, 69634, 69688, 69703, 69744, 69745, 69747, 69749, 69759,
    69762, 69811, 69815, 69817, 69819, 69826, 69827, 69888, 69891, 69927, 69932, 69933, 69941,
    70003, 70004, 70016, 70018, 70070, 70079, 70082, 70084, 70089, 70093, 70095, 70096, 70191,
    70194, 70196, 70197, 70198, 70200, 70206, 70207, 70209, 70210, 70367, 70368, 70371, 70379,
    70400, 70402, 70459, 70461, 70462, 70463, 70464, 70465, 70487, 70488, 70502, 70509, 70512,
    70517, 70712, 70720, 70722, 70725, 70726, 70727, 70750, 70751, 70832, 70833, 70835, 70841,
    70842, 70843, 70845, 70846, 70847, 70849, 70850, 70852, 71087, 71088, 71090, 71094, 71100,
    71102, 71103, 71105, 71132, 71134, 71219, 71227, 71229, 71230, 71231, 71233, 71339, 71340,
    71341, 71342, 71344, 71350, 71351, 71352, 71453, 71456, 71458, 71462, 71463, 71468, 71727,
    71736, 71737, 71739, 71984, 71985, 71995, 71997, 71998, 72000, 72001, 72002, 72003, 72004,
    72148, 72152, 72154, 72156, 72160, 72161, 72193, 72203, 72243, 72249, 72250, 72255, 72263,
    72264, 72273, 72279, 72281, 72284, 72324, 72343, 72344, 72346, 72752, 72759, 72760, 72766,
    72767, 72768, 72850, 72872, 72874, 72881, 72882, 72884, 72885, 72887, 73009, 73015, 73018,
    73019, 73020, 73022, 73023, 73032, 73104, 73106, 73109, 73110, 73111, 73112, 73459, 73461,
    73472, 73475, 73526, 73531, 73536, 73537, 73538, 73539, 78912, 78913, 78919, 78934, 92912,
    92917, 92976, 92983, 94031, 94032, 94095, 94099, 94180, 94181, 113821, 113823, 113824, 113828,
    118528, 118574, 118576, 118599, 119141, 119142, 119143, 119146, 119150, 119171, 119173, 119180,
    119210, 119214, 119362, 119365, 121344, 121399, 121403, 121453, 121461, 121462, 121476, 121477,
    121499, 121504, 121505, 121520, 122880, 122887, 122888, 122905, 122907, 122914, 122915, 122917,
    122918, 122923, 123023, 123024, 123184, 123191, 123566, 123567, 123628, 123632, 124140, 124144,
    125136, 125143, 125252, 125259, 917504, 921600]

def charWidth (c : Char) : Nat :=
  if zeroWidth.holds c then 0
  else if c = '\u17d8' then 3
  else if wide.holds c || c = '\u17a4' then 2
  else 1

/-- Control characters, which fill no column by themselves. -/
def isControl (c : Char) : Bool := c.toNat < 32 || (127 ≤ c.toNat && c.toNat < 160)

/-- Shown as a picture unless a selector says otherwise: the Unicode property `Emoji_Presentation`,
less skin tones and letters of flags. -/
def pictures : Boundaries :=
  [
    8986, 8988, 9193, 9197, 9200, 9201, 9203, 9204, 9725, 9727, 9748, 9750, 9800, 9812, 9855, 9856,
    9875, 9876, 9889, 9890, 9898, 9900, 9917, 9919, 9924, 9926, 9934, 9935, 9940, 9941, 9962, 9963,
    9970, 9972, 9973, 9974, 9978, 9979, 9981, 9982, 9989, 9990, 9994, 9996, 10024, 10025, 10060,
    10061, 10062, 10063, 10067, 10070, 10071, 10072, 10133, 10136, 10160, 10161, 10175, 10176,
    11035, 11037, 11088, 11089, 11093, 11094, 126980, 126981, 127183, 127184, 127374, 127375,
    127377, 127387, 127489, 127490, 127514, 127515, 127535, 127536, 127538, 127543, 127544, 127547,
    127568, 127570, 127744, 127777, 127789, 127798, 127799, 127869, 127870, 127892, 127904, 127947,
    127951, 127956, 127968, 127985, 127988, 127989, 127992, 127995, 128000, 128063, 128064, 128065,
    128066, 128253, 128255, 128318, 128331, 128335, 128336, 128360, 128378, 128379, 128405, 128407,
    128420, 128421, 128507, 128592, 128640, 128710, 128716, 128717, 128720, 128723, 128725, 128728,
    128732, 128736, 128747, 128749, 128756, 128765, 128992, 129004, 129008, 129009, 129292, 129339,
    129340, 129350, 129351, 129536, 129648, 129661, 129664, 129673, 129680, 129726, 129727, 129734,
    129742, 129756, 129760, 129769, 129776, 129785]

/-- May be followed by a selector of the style. -/
def styled : Boundaries :=
  [
    35, 36, 42, 43, 48, 58, 169, 170, 174, 175, 8252, 8253, 8265, 8266, 8482, 8483, 8505, 8506,
    8596, 8602, 8617, 8619, 8986, 8988, 9000, 9001, 9167, 9168, 9193, 9204, 9208, 9211, 9410, 9411,
    9642, 9644, 9654, 9655, 9664, 9665, 9723, 9727, 9728, 9733, 9742, 9743, 9745, 9746, 9748, 9750,
    9752, 9753, 9757, 9758, 9760, 9761, 9762, 9764, 9766, 9767, 9770, 9771, 9774, 9776, 9784, 9787,
    9792, 9793, 9794, 9795, 9800, 9812, 9823, 9825, 9827, 9828, 9829, 9831, 9832, 9833, 9851, 9852,
    9854, 9856, 9874, 9880, 9881, 9882, 9883, 9885, 9888, 9890, 9895, 9896, 9898, 9900, 9904, 9906,
    9917, 9919, 9924, 9926, 9928, 9929, 9934, 9936, 9937, 9938, 9939, 9941, 9961, 9963, 9968, 9974,
    9975, 9979, 9981, 9982, 9986, 9987, 9989, 9990, 9992, 9998, 9999, 10000, 10002, 10003, 10004,
    10005, 10006, 10007, 10013, 10014, 10017, 10018, 10024, 10025, 10035, 10037, 10052, 10053,
    10055, 10056, 10060, 10061, 10062, 10063, 10067, 10070, 10071, 10072, 10083, 10085, 10133,
    10136, 10145, 10146, 10160, 10161, 10175, 10176, 10548, 10550, 11013, 11016, 11035, 11037,
    11088, 11089, 11093, 11094, 12336, 12337, 12349, 12350, 12951, 12952, 12953, 12954, 126980,
    126981, 127344, 127346, 127358, 127360, 127490, 127491, 127514, 127515, 127535, 127536, 127543,
    127544, 127757, 127760, 127765, 127766, 127772, 127773, 127777, 127778, 127780, 127789, 127798,
    127799, 127864, 127865, 127869, 127870, 127891, 127892, 127894, 127896, 127897, 127900, 127902,
    127904, 127911, 127912, 127916, 127919, 127938, 127939, 127940, 127941, 127942, 127943, 127946,
    127951, 127956, 127969, 127981, 127982, 127987, 127988, 127989, 127990, 127991, 127992, 128008,
    128009, 128021, 128022, 128031, 128032, 128038, 128039, 128063, 128064, 128065, 128067, 128070,
    128074, 128077, 128079, 128083, 128084, 128106, 128107, 128125, 128126, 128163, 128164, 128176,
    128177, 128179, 128180, 128187, 128188, 128191, 128192, 128203, 128204, 128218, 128219, 128223,
    128224, 128228, 128231, 128234, 128238, 128247, 128248, 128249, 128252, 128253, 128254, 128264,
    128265, 128269, 128270, 128274, 128276, 128329, 128331, 128336, 128360, 128367, 128369, 128371,
    128378, 128391, 128392, 128394, 128398, 128400, 128401, 128421, 128422, 128424, 128425, 128433,
    128435, 128444, 128445, 128450, 128453, 128465, 128468, 128476, 128479, 128481, 128482, 128483,
    128484, 128488, 128489, 128495, 128496, 128499, 128500, 128506, 128507, 128528, 128529, 128647,
    128648, 128653, 128654, 128657, 128658, 128660, 128661, 128664, 128665, 128685, 128686, 128690,
    128691, 128697, 128699, 128700, 128701, 128715, 128716, 128717, 128720, 128736, 128742, 128745,
    128746, 128752, 128753, 128755, 128756]

/-- Pictures that a selector turns into narrow text. -/
def textStyled : Boundaries :=
  [
    8986, 8988, 9193, 9197, 9200, 9201, 9203, 9204, 9725, 9727, 9748, 9750, 9800, 9812, 9855, 9856,
    9875, 9876, 9889, 9890, 9898, 9900, 9917, 9919, 9924, 9926, 9934, 9935, 9940, 9941, 9962, 9963,
    9970, 9972, 9973, 9974, 9978, 9979, 9981, 9982, 9989, 9990, 9994, 9996, 10024, 10025, 10060,
    10061, 10062, 10063, 10067, 10070, 10071, 10072, 10133, 10136, 10160, 10161, 10175, 10176,
    11035, 11037, 11088, 11089, 11093, 11094, 126980, 126981, 127757, 127760, 127765, 127766,
    127772, 127773, 127864, 127865, 127891, 127892, 127911, 127912, 127916, 127919, 127938, 127939,
    127940, 127941, 127942, 127943, 127946, 127947, 127968, 127969, 127981, 127982, 128008, 128009,
    128021, 128022, 128031, 128032, 128038, 128039, 128066, 128067, 128070, 128074, 128077, 128079,
    128083, 128084, 128106, 128107, 128125, 128126, 128163, 128164, 128176, 128177, 128179, 128180,
    128187, 128188, 128191, 128192, 128203, 128204, 128218, 128219, 128223, 128224, 128228, 128231,
    128234, 128238, 128247, 128248, 128249, 128252, 128264, 128265, 128269, 128270, 128274, 128276,
    128336, 128360, 128528, 128529, 128647, 128648, 128653, 128654, 128657, 128658, 128660, 128661,
    128664, 128665, 128685, 128686, 128690, 128691, 128697, 128699, 128700, 128701]

/-- Unicode property `Emoji_Modifier_Base`. -/
def skinToned : Boundaries :=
  [
    9757, 9758, 9977, 9978, 9994, 9998, 127877, 127878, 127938, 127941, 127943, 127944, 127946,
    127949, 128066, 128068, 128070, 128081, 128102, 128121, 128124, 128125, 128129, 128132, 128133,
    128136, 128143, 128144, 128145, 128146, 128170, 128171, 128372, 128374, 128378, 128379, 128400,
    128401, 128405, 128407, 128581, 128584, 128587, 128592, 128675, 128676, 128692, 128695, 128704,
    128705, 128716, 128717, 129292, 129293, 129295, 129296, 129304, 129312, 129318, 129319, 129328,
    129338, 129340, 129343, 129399, 129400, 129461, 129463, 129464, 129466, 129467, 129468, 129485,
    129488, 129489, 129502, 129731, 129734, 129776, 129785]

def textSelector : Char := '\ufe0e'

def pictureSelector : Char := '\ufe0f'

def joiner : Char := '\u200d'

def keycap : Char := '\u20e3'

/-- The flag that tags after it make the flag of a region. -/
def taggedFlag : Char := Char.ofNat 0x1F3F4

def tagEnd : Char := Char.ofNat 0xE007F

def isSkinTone (c : Char) : Bool := 0x1F3FB ≤ c.toNat && c.toNat ≤ 0x1F3FF

def isFlagLetter (c : Char) : Bool := 0x1F1E6 ≤ c.toNat && c.toNat ≤ 0x1F1FF

def isTagLetter (c : Char) : Bool := 0xE0061 ≤ c.toNat && c.toNat ≤ 0xE007A

def isTagDigit (c : Char) : Bool := 0xE0030 ≤ c.toNat && c.toNat ≤ 0xE0039

/-- What a sign may end with, or the end of it that has been joined so far. -/
inductive Ligature where
  /-- An Arabic alef, which joins with a lam. -/
  | alef
  /-- A Hebrew lamed, which joins with an alef. -/
  | lamed
  /-- A Khmer letter that may be written below the one before it. -/
  | subscript
  /-- The Buginese letter ya. -/
  | ya
  /-- The Buginese vowel sign i and the letter ya. -/
  | vowelYa
  | tifinagh
  /-- A Tifinagh letter behind the consonant joiner. -/
  | joinedTifinagh
  /-- One of the second Lisu tone letters. -/
  | tone
  /-- The Old Turkic letter i. -/
  | orkhon
deriving DecidableEq

/-- Arabic letters of the joining group alef. -/
def alefs : Boundaries :=
  [
    1570, 1572, 1573, 1574, 1575, 1576, 1649, 1652, 1653, 1654, 1907, 1909, 2160, 2179]

/-- Arabic letters of the joining group lam. -/
def lams : Boundaries :=
  [
    1604, 1605, 1717, 1721, 1898, 1899, 2214, 2215, 2247, 2248]

def subscripts : Boundaries :=
  [
    6016, 6019, 6020, 6024, 6025, 6029, 6030, 6036, 6037, 6041, 6043, 6046, 6048, 6049, 6050, 6051,
    6055, 6056, 6059, 6061, 6063, 6064]

/-- Code points of no width between which Arabic letters do not join. -/
def separating : Boundaries :=
  [
    1541, 1542, 2192, 2194, 2274, 2275, 2494, 2495, 2519, 2520, 2878, 2879, 2903, 2904, 3006, 3007,
    3031, 3032, 3264, 3265, 3266, 3267, 3271, 3273, 3274, 3276, 3285, 3287, 3390, 3391, 3406, 3407,
    3415, 3416, 3535, 3536, 3551, 3552, 4448, 4608, 6158, 6159, 6965, 6966, 6971, 6972, 6973, 6974,
    6979, 6980, 8204, 8206, 8293, 8298, 12334, 12336, 12644, 12645, 43258, 43259, 55216, 55239,
    55243, 55292, 65438, 65441, 65520, 65529, 70082, 70084, 70462, 70463, 70487, 70488, 70832,
    70833, 70845, 70846, 71087, 71088, 71984, 71985, 71999, 72000, 72001, 72002, 72250, 72251,
    72324, 72330, 73030, 73031, 73474, 73475, 119141, 119142, 119150, 119155, 917504, 917505,
    917506, 917536, 917632, 917760, 918000, 921600]

def isTransparent (c : Char) : Bool := charWidth c == 0 && !separating.holds c

def isTifinagh (c : Char) : Bool :=
  (0x2D31 ≤ c.toNat && c.toNat ≤ 0x2D65) || c = '\u2d6f'

/-- Ignorable marks, which may stand anywhere inside a sign. -/
def ignorableMarks : Boundaries :=
  [
    847, 848, 6068, 6070, 6155, 6158, 6159, 6160, 65024, 65040, 917760, 918000]

def Ligature.ofChar? (c : Char) : Option Ligature :=
  if alefs.holds c then some .alef
  else if c = '\u05dc' then some .lamed
  else if subscripts.holds c then some .subscript
  else if c = '\u1a10' then some .ya
  else if isTifinagh c then some .tifinagh
  else if c = '\ua4fc' || c = '\ua4fd' then some .tone
  else if c = Char.ofNat 0x10C03 then some .orkhon
  else none

/-- Tags before the end of a run of tags that belongs to a picture behind a joiner. -/
inductive TagRun where
  | letters (count : Nat)
  | digits (count : Nat)
deriving DecidableEq

/-- What a text begins with, as far as it decides the columns of a character before it. -/
inductive Opening where
  | plain
  | lineFeed
  | skinTone
  | flagLetter
  | flagLetters
  | picture
  /-- A joiner and a picture. -/
  | joined
  /-- A keycap, a joiner and a picture. -/
  | joinedKeycap
  /-- The last letter of a flag, a joiner and a picture. -/
  | joinedLetter
  /-- Letters of flags, a joiner and a picture; whether the letters make up pairs. -/
  | joinedLetters (paired : Bool)
  | joinedTags (run : TagRun)
  /-- The end of a sign of a script, and whether a joiner stands before it. -/
  | ligature (last : Ligature) (bridged : Bool)
deriving DecidableEq

namespace Opening

def ofChar (c : Char) : Opening :=
  match Ligature.ofChar? c with
  | some last => .ligature last false
  | none =>
      if isFlagLetter c then .flagLetter
      else if isSkinTone c then .skinTone
      else if pictures.holds c then .picture
      else .plain

/-- Selectors of the style may stand inside a sign of a script. -/
def keepsSelectors : Opening → Bool
  | .ligature _ _ => true
  | _ => false

/-- A selector before a joiner belongs to the picture before it. -/
def isJoined : Opening → Bool
  | .joined => true
  | .joinedKeycap => true
  | _ => false

/-- A mark that may stand inside a sign, after which the sign goes on. -/
def afterMark? (c : Char) : Opening → Option Opening
  | .ligature .alef _ => none
  | .ligature last bridged =>
      if c = joiner then some (.ligature last true)
      else if ignorableMarks.holds c then some (.ligature last bridged)
      else none
  | _ => none

/-- A letter that joins to a sign: the columns that it adds, and what the text begins with then. -/
def afterLetter? (c : Char) : Ligature → Bool → Option (Int × Opening)
  | .alef, bridged =>
      if lams.holds c then some (0, .plain)
      else if isTransparent c then some (0, .ligature .alef bridged)
      else none
  | .lamed, bridged => if bridged && c = '\u05d0' then some (0, .plain) else none
  | .subscript, _ => if c = '\u17d2' then some (-1, .plain) else none
  | .ya, bridged => if bridged && c = '\u1a17' then some (0, .ligature .vowelYa true) else none
  | .vowelYa, _ => if c = '\u1a15' then some (0, .plain) else none
  | .tifinagh, bridged =>
      if c = '\u2d7f' then some (1, .ligature .joinedTifinagh true)
      else if bridged && isTifinagh c then some (0, .plain)
      else none
  | .joinedTifinagh, _ => if isTifinagh c then some (-1, .plain) else none
  | .tone, _ => if '\ua4f8' ≤ c && c ≤ '\ua4fb' then some (0, .plain) else none
  | .orkhon, bridged => if bridged && c = Char.ofNat 0x10C32 then some (0, .plain) else none

/-- The tags of a region are three to six letters, or up to four letters behind three digits. -/
def afterTag? (c : Char) : TagRun → Option Opening
  | .letters count =>
      if isTagLetter c && count < 6 then some (.joinedTags (.letters (count + 1)))
      else if isTagDigit c && count ≤ 4 then some (.joinedTags (.digits 1))
      else if c = taggedFlag && 3 ≤ count then some .picture
      else none
  | .digits count =>
      if isTagDigit c && count < 3 then some (.joinedTags (.digits (count + 1)))
      else if c = taggedFlag && count = 3 then some .picture
      else none

/-- What may stand before a joiner and a picture. -/
def afterJoined? (c : Char) : Option (Int × Opening) :=
  if c = keycap then some (0, .joinedKeycap)
  else if isFlagLetter c then some (1, .joinedLetter)
  else if isSkinTone c then some (0, .skinTone)
  else if c = tagEnd then some (0, .joinedTags (.letters 0))
  else if pictures.holds c then some (0, .picture)
  else none

/-- A character that is shown together with what it stands before: the columns that it adds, and
what the text begins with then. -/
def after? (c : Char) : Opening → Option (Int × Opening)
  | .plain => none
  | .lineFeed => none
  | .skinTone =>
      if skinToned.holds c then some (0, .picture)
      else if c = joiner then some (0, .joined)
      else none
  | .flagLetter => if isFlagLetter c then some (1, .flagLetters) else none
  | .flagLetters =>
      if isFlagLetter c then some (1, .flagLetters)
      else if c = joiner then some (0, .joined)
      else none
  | .picture => if c = joiner then some (0, .joined) else none
  | .joined => afterJoined? c
  | .joinedKeycap => none
  | .joinedLetter => if isFlagLetter c then some (-1, .joinedLetters true) else none
  | .joinedLetters paired =>
      if isFlagLetter c then some (if paired then 3 else -1, .joinedLetters (!paired))
      else if c = joiner then some (0, .joined)
      else none
  | .joinedTags run => (afterTag? c run).map (0, ·)
  | .ligature last bridged => afterLetter? c last bridged

end Opening

/-- What a text begins with, and the selectors of the style that stand before that. -/
structure Following where
  opening : Opening
  pictured : Bool
  written : Bool
deriving DecidableEq

namespace Following

def of (opening : Opening) : Following := ⟨opening, false, false⟩

def selectPicture (next : Following) : Following :=
  if next.opening.keepsSelectors then { next with pictured := true }
  else ⟨if next.opening.isJoined then next.opening else .plain, true, false⟩

def selectText (next : Following) : Following :=
  if next.opening.keepsSelectors then { next with written := true } else ⟨.plain, false, true⟩

def dropPicture (next : Following) : Following :=
  if !next.pictured then next
  else if next.opening.keepsSelectors then { next with pictured := false }
  else of .plain

def dropText (next : Following) : Following :=
  if !next.written then next
  else if next.opening.keepsSelectors then { next with written := false }
  else of .plain

/-- Line breaks, and characters that are shown by themselves. -/
def beforeNarrow (c : Char) (next : Following) : Int × Following :=
  if c = '\n' then (1, of .lineFeed)
  else if c = '\r' && next = of .lineFeed then (0, of .plain)
  else (1, of .plain)

/-- Characters that are not a selector. -/
def beforeSign (c : Char) (next : Following) : Int × Following :=
  match next.opening.afterMark? c with
  | some opening => (0, { next with opening })
  | none =>
      match next.opening.after? c with
      | some (columns, opening) => (columns, of opening)
      | none => (charWidth c, of (.ofChar c))

def beforeWide (c : Char) (next : Following) : Int × Following :=
  if c = pictureSelector then (0, next.selectPicture)
  else if c = textSelector then (0, next.selectText)
  else if next.written && textStyled.holds c then (1, of .plain)
  else beforeSign c next.dropText

/-- The columns that a character adds to those of the text behind it. -/
def before (c : Char) (next : Following) : Int × Following :=
  if next.pictured && styled.holds c then
    (if next.opening.isJoined then 0 else 2, of .picture)
  else if c.toNat ≤ 160 then beforeNarrow c next.dropPicture
  else beforeWide c next.dropPicture

end Following

def columnsFrom : List Char → Int × Following
  | [] => (0, .of .plain)
  | c :: rest =>
      let (columns, next) := columnsFrom rest
      let (added, opening) := next.before c
      (columns + added, opening)

def columns (text : List Char) : Nat := (columnsFrom text).1.toNat

def hasColumns (c : Char) : Bool := !isControl c && charWidth c != 0

/-- Columns of colour sequences after their escape character, which a terminal does not show. Each
character of a sequence that has columns stands for one. -/
def hiddenFrom : Nat → List Char → Nat
  | _, [] => 0
  | 0, c :: rest => hiddenFrom (if c = '\x1b' then 1 else 0) rest
  | 1, c :: rest => if c = '[' then 1 + hiddenFrom 2 rest else hiddenFrom 0 rest
  | state, c :: rest =>
      (if hasColumns c then 1 else 0) + hiddenFrom (if c = 'm' then 0 else state) rest

def displayWidth (text : List Char) : Nat := columns text - hiddenFrom 0 text

end PropertyGraph.Text
