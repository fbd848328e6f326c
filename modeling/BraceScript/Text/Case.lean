import BraceScript.Text.Runs

/-!
# Upper and lower case

Case mapping of whole texts. A mapping may lengthen the text (a sharp s has two capitals), and the
small form of a capital sigma depends on its neighbours.

* `upper`, `lower`   the case mappings of a text
* `isCased`, `isCaseIgnorable`   the classes that decide on the form of a sigma
-/

namespace BraceScript.Text

/-- a run of letters from `first` to `last`, `stride` apart, and how far away their other forms are -/
structure CaseRun where
  first : Nat
  last : Nat
  stride : Nat
  shift : Int

/-- the runs of a table that says how far after the run before each begins, and how far it goes on -/
def caseRuns (before : Nat) : List (Nat × Nat × Nat × Int) → List CaseRun
  | [] => []
  | (gap, span, stride, shift) :: rest =>
    ⟨before + gap, before + gap + span, stride, shift⟩ :: caseRuns (before + gap + span) rest

/-- the run of the other forms -/
def CaseRun.turned (r : CaseRun) : CaseRun :=
  ⟨(Int.ofNat r.first + r.shift).toNat, (Int.ofNat r.last + r.shift).toNat, r.stride, -r.shift⟩

/-- small letters above the ASCII range, each with a capital whose small form it is -/
def pairedRuns : List CaseRun := caseRuns 0 [
  (224,22,1,-32),(2,6,1,-32),(1,0,1,121),(2,46,2,-1),(4,4,2,-1),(3,14,2,-1),(3,44,2,-1),(3,4,2,-1),
  (2,0,1,195),(3,2,2,-1),(3,0,1,-1),(4,0,1,-1),(6,0,1,-1),(3,0,1,97),(4,0,1,-1),(1,0,1,163),
  (4,0,1,130),(3,4,2,-1),(3,0,1,-1),(5,0,1,-1),(3,0,1,-1),(4,2,2,-1),(3,0,1,-1),(4,0,1,-1),
  (2,0,1,56),(7,0,1,-2),(3,0,1,-2),(3,0,1,-2),(2,14,2,-1),(1,0,1,-79),(2,16,2,-1),(4,0,1,-2),
  (2,0,1,-1),(4,38,2,-1),(4,16,2,-1),(9,0,1,-1),(3,1,1,10815),(2,0,1,-1),(5,8,2,-1),(1,0,1,10783),
  (1,0,1,10780),(1,0,1,10782),(1,0,1,-210),(1,0,1,-206),(2,1,1,-205),(2,0,1,-202),(2,0,1,-203),
  (1,0,1,42319),(4,0,1,-205),(1,0,1,42315),(2,0,1,-207),(2,0,1,42280),(1,0,1,42308),(2,0,1,-209),
  (1,0,1,-211),(1,0,1,42308),(1,0,1,10743),(1,0,1,42305),(3,0,1,-211),(2,0,1,10749),(1,0,1,-213),
  (3,0,1,-214),(8,0,1,10727),(3,0,1,-218),(2,0,1,42307),(1,0,1,-218),(4,0,1,42282),(1,0,1,-218),
  (1,0,1,-69),(1,1,1,-217),(1,0,1,-71),(6,0,1,-219),(11,0,1,42261),(1,0,1,42258),(211,2,2,-1),
  (4,0,1,-1),(4,2,1,130),(47,0,1,-38),(1,2,1,-37),(2,16,1,-32),(2,8,1,-32),(1,0,1,-64),(1,1,1,-63),
  (9,0,1,-8),(2,22,2,-1),(3,0,1,7),(1,0,1,-116),(5,0,1,-1),(3,0,1,-1),(53,31,1,-32),(1,15,1,-80),
  (2,32,2,-1),(10,52,2,-1),(3,12,2,-1),(1,0,1,-15),(2,94,2,-1),(50,37,1,-48),(2890,42,1,3008),
  (3,2,1,3008),(761,5,1,-8),(2428,0,1,35332),(4,0,1,3814),(17,0,1,35384),(115,148,2,-1),
  (12,94,2,-1),(1,7,1,8),(9,5,1,8),(11,7,1,8),(9,7,1,8),(9,5,1,8),(12,6,2,8),(9,7,1,8),(9,1,1,74),
  (1,3,1,86),(1,1,1,100),(1,1,1,128),(1,1,1,112),(1,1,1,126),(51,1,1,8),(31,1,1,8),(15,1,1,8),
  (4,0,1,7),(361,0,1,-28),(34,15,1,-16),(5,0,1,-1),(844,25,1,-26),(1863,47,1,-48),(2,0,1,-1),
  (4,0,1,-10795),(1,0,1,-10792),(2,4,2,-1),(7,0,1,-1),(3,0,1,-1),(11,98,2,-1),(9,2,2,-1),(5,0,1,-1),
  (13,37,1,-7264),(2,0,1,-7264),(6,0,1,-7264),(30996,44,2,-1),(20,26,2,-1),(136,12,2,-1),
  (4,60,2,-1),(11,2,2,-1),(3,8,2,-1),(5,0,1,-1),(5,2,2,-1),(1,0,1,48),(3,18,2,-1),(12,14,2,-1),
  (5,2,2,-1),(7,0,1,-1),(6,2,2,-1),(29,0,1,-1),(861,0,1,-928),(29,79,1,-38864),(21378,25,1,-32),
  (1230,39,1,-40),(137,35,1,-40),(156,10,1,-39),(2,14,1,-39),(2,6,1,-39),(2,1,1,-39),
  (1796,50,1,-64),(3022,31,1,-32),(21889,31,1,-32),(31395,33,1,-34)]

/-- small letters whose capital has another small form -/
def capitalRuns : List CaseRun := caseRuns 0 [
  (181,0,1,743),(124,0,1,-232),(78,0,1,-300),(70,0,1,-1),(3,0,1,-1),(3,0,1,-1),(39,0,1,-1),
  (339,0,1,84),(125,0,1,-31),(14,0,1,-62),(1,0,1,-57),(4,0,1,-47),(1,0,1,-54),(26,0,1,-86),
  (1,0,1,-80),(4,0,1,-96),(6283,0,1,-6254),(1,0,1,-6253),(1,0,1,-6244),(1,1,1,-6242),(1,0,1,-6243),
  (1,0,1,-6236),(1,0,1,-6181),(1,0,1,35266),(531,0,1,-59),(291,0,1,-7205)]

/-- capitals whose small form has another capital -/
def smallRuns : List CaseRun := caseRuns 0 [
  (453,0,1,1),(3,0,1,1),(3,0,1,1),(39,0,1,1),(514,0,1,-60),(6826,0,1,-7615),(234,7,1,-8),(9,7,1,-8),
  (9,7,1,-8),(13,0,1,-9),(16,0,1,-9),(48,0,1,-9),(298,0,1,-7517),(4,0,1,-8383),(1,0,1,-8262)]

/-- characters whose capital form is more than one character -/
def longCapitals : List (Nat × List Nat) := [
  (223, [83, 83]),(329, [700, 78]),(496, [74, 780]),(912, [921, 776, 769]),(944, [933, 776, 769]),
  (1415, [1333, 1362]),(7830, [72, 817]),(7831, [84, 776]),(7832, [87, 778]),(7833, [89, 778]),
  (7834, [65, 702]),(8016, [933, 787]),(8018, [933, 787, 768]),(8020, [933, 787, 769]),(8022, [933, 787, 834]),
  (8064, [7944, 921]),(8065, [7945, 921]),(8066, [7946, 921]),(8067, [7947, 921]),(8068, [7948, 921]),
  (8069, [7949, 921]),(8070, [7950, 921]),(8071, [7951, 921]),(8072, [7944, 921]),(8073, [7945, 921]),
  (8074, [7946, 921]),(8075, [7947, 921]),(8076, [7948, 921]),(8077, [7949, 921]),(8078, [7950, 921]),
  (8079, [7951, 921]),(8080, [7976, 921]),(8081, [7977, 921]),(8082, [7978, 921]),(8083, [7979, 921]),
  (8084, [7980, 921]),(8085, [7981, 921]),(8086, [7982, 921]),(8087, [7983, 921]),(8088, [7976, 921]),
  (8089, [7977, 921]),(8090, [7978, 921]),(8091, [7979, 921]),(8092, [7980, 921]),(8093, [7981, 921]),
  (8094, [7982, 921]),(8095, [7983, 921]),(8096, [8040, 921]),(8097, [8041, 921]),(8098, [8042, 921]),
  (8099, [8043, 921]),(8100, [8044, 921]),(8101, [8045, 921]),(8102, [8046, 921]),(8103, [8047, 921]),
  (8104, [8040, 921]),(8105, [8041, 921]),(8106, [8042, 921]),(8107, [8043, 921]),(8108, [8044, 921]),
  (8109, [8045, 921]),(8110, [8046, 921]),(8111, [8047, 921]),(8114, [8122, 921]),(8115, [913, 921]),
  (8116, [902, 921]),(8118, [913, 834]),(8119, [913, 834, 921]),(8124, [913, 921]),(8130, [8138, 921]),
  (8131, [919, 921]),(8132, [905, 921]),(8134, [919, 834]),(8135, [919, 834, 921]),(8140, [919, 921]),
  (8146, [921, 776, 768]),(8147, [921, 776, 769]),(8150, [921, 834]),(8151, [921, 776, 834]),(8162, [933, 776, 768]),
  (8163, [933, 776, 769]),(8164, [929, 787]),(8166, [933, 834]),(8167, [933, 776, 834]),(8178, [8186, 921]),
  (8179, [937, 921]),(8180, [911, 921]),(8182, [937, 834]),(8183, [937, 834, 921]),(8188, [937, 921]),
  (64256, [70, 70]),(64257, [70, 73]),(64258, [70, 76]),(64259, [70, 70, 73]),(64260, [70, 70, 76]),
  (64261, [83, 84]),(64262, [83, 84]),(64275, [1348, 1350]),(64276, [1348, 1333]),(64277, [1348, 1339]),
  (64278, [1358, 1350]),(64279, [1348, 1341])
]

/-- letters with case that do not count as ignorable -/
def casedRuns : List Nat := [
  65,26,6,26,47,1,10,1,4,1,5,23,1,31,1,195,1,4,4,208,1,27,192,4,2,2,3,3,1,1,6,1,1,
  3,1,1,1,20,1,83,1,139,8,166,1,38,9,41,2839,38,1,1,5,1,2,43,2,3,672,86,2,6,2178,9,
  7,43,2,3,64,44,63,13,1,34,101,278,2,6,2,38,2,6,2,8,1,1,1,1,1,1,1,31,2,53,1,7,1,
  1,3,3,1,7,3,4,2,6,4,13,5,3,1,7,261,1,4,1,2,10,1,1,3,5,6,1,1,1,1,1,1,4,1,6,4,
  1,2,4,5,5,4,1,17,32,3,2,817,52,1814,124,2,103,6,4,3,2,12,38,1,1,5,1,30994,46,18,
  28,134,78,1,23,3,4,1,59,5,2,1,1,1,5,27,2,3,1,821,43,5,9,7,80,20288,7,12,5,1033,26,
  6,26,1189,80,96,36,4,36,116,11,1,15,1,7,1,2,1,11,1,15,1,7,1,2,1731,51,13,51,2989,
  64,21856,64,25984,85,1,71,1,2,2,1,2,2,2,4,1,12,1,1,1,7,1,65,1,4,2,8,1,7,1,28,1,
  4,1,5,1,1,3,7,1,340,2,25,1,25,1,31,1,25,1,31,1,25,1,31,1,25,1,31,1,25,1,8,1844,
  10,1,20,2529,68,2028,26,6,26,6,26
]

/-- characters that are passed over when looking for a neighbour with case -/
def caseIgnorableRuns : List Nat := [
  39,1,6,1,11,1,35,1,1,1,71,1,4,1,1,1,4,1,2,2,503,192,4,2,4,1,9,2,1,1,251,7,207,
  1,5,1,49,45,1,1,1,2,1,2,1,1,44,1,11,6,10,11,1,1,35,1,10,21,16,1,101,8,1,10,1,4,
  33,1,1,1,30,27,91,11,58,11,4,1,2,1,24,24,43,3,44,1,7,2,6,8,41,58,55,1,1,1,4,8,4,
  1,3,7,10,2,13,1,15,1,58,1,4,4,8,1,20,2,26,1,2,2,57,1,4,2,4,2,2,3,3,1,30,2,3,1,
  11,2,57,1,4,5,1,2,4,1,20,2,22,6,1,1,58,1,2,1,1,4,8,1,7,2,11,2,30,1,61,1,12,1,
  50,1,3,1,55,1,1,3,5,3,1,4,7,2,11,2,29,1,58,1,2,1,6,1,5,2,20,2,28,2,57,2,4,4,8,
  1,20,2,29,1,72,1,7,3,1,1,90,1,2,7,11,9,98,1,2,9,9,1,1,6,74,2,27,1,1,1,1,1,55,
  14,1,5,1,2,5,11,1,36,9,1,102,4,1,6,1,2,2,2,25,2,4,3,16,4,13,1,2,2,6,1,15,1,94,
  1,608,3,946,3,29,2,30,2,30,2,64,2,1,7,8,1,2,11,3,1,5,1,45,5,51,1,65,2,34,1,118,
  3,4,2,9,1,6,3,219,2,2,1,58,1,1,7,1,1,1,1,2,8,6,10,2,1,39,1,8,31,49,4,48,1,1,5,
  1,1,5,1,40,9,12,2,32,4,2,2,1,3,56,1,1,2,3,1,1,3,58,8,2,2,64,6,82,3,1,13,1,7,4,
  1,6,1,3,2,50,63,13,1,34,101,445,1,1,3,11,3,13,3,13,3,13,2,12,5,8,2,10,1,2,1,2,5,
  49,5,1,10,1,1,13,1,16,13,51,33,2955,2,113,3,125,1,15,1,96,32,47,1,469,1,36,4,3,5,
  5,1,93,6,93,3,28438,1,1250,6,270,1,98,4,1,10,1,1,28,4,80,2,14,34,78,1,23,3,103,3,
  3,2,8,1,3,1,4,1,25,2,5,1,151,2,26,18,13,1,38,8,25,11,46,3,48,1,2,4,2,2,17,1,21,
  2,66,6,2,2,2,2,12,1,8,1,35,1,11,1,51,1,1,3,2,2,5,2,1,1,27,1,14,2,5,2,1,1,100,
  5,9,3,121,1,2,1,4,1,20272,1,147,17,573,16,3,1,12,16,34,1,2,1,169,1,7,1,6,1,11,1,
  35,1,1,1,47,1,45,2,67,1,21,3,513,1,226,1,149,5,1029,6,1,42,1,9,582,3,1,2,5,4,40,
  3,4,1,165,2,573,4,387,2,153,11,49,4,123,1,54,15,41,1,2,2,10,3,49,4,2,2,2,1,4,1,
  10,1,50,3,36,5,1,8,62,1,12,2,52,9,10,4,2,1,95,3,2,1,1,2,6,1,160,1,3,8,21,2,57,
  2,3,1,37,7,3,5,195,8,2,3,1,1,23,1,84,6,1,1,4,2,1,2,238,4,6,2,1,2,27,2,85,8,2,
  1,1,2,106,1,1,1,2,6,1,1,101,3,2,4,1,5,259,9,1,2,256,2,1,1,4,1,144,4,2,2,4,1,32,
  10,40,6,2,4,8,1,9,6,2,3,46,13,1,2,406,7,1,6,1,1,82,22,2,7,1,2,1,2,122,6,3,1,1,
  2,1,7,1,1,72,2,3,1,1,1,347,2,5435,9,14007,5,59,7,9,4,1035,1,63,17,64,2,1,2,16395,
  4,1,7,1,2,3230,2,1,4,4700,46,2,23,544,3,9,16,2,7,30,4,148,3,1979,55,4,50,8,1,14,1,
  22,5,1,15,1360,7,1,17,2,7,1,2,1,5,261,14,368,1,61,4,1504,7,109,8,2735,5,789505,1,30,
  96,128,240
]

def isCased (c : Char) : Bool := inRuns casedRuns c.toNat

/-- is the character passed over when looking for a neighbour with case? -/
def isCaseIgnorable (c : Char) : Bool := inRuns caseIgnorableRuns c.toNat

/-- the image of a code point under the first run that holds it -/
def moveBy (runs : List CaseRun) (n : Nat) : Option Nat :=
  (runs.find? fun r => r.first ≤ n && n ≤ r.last && (n - r.first) % r.stride == 0).map
    fun r => (Int.ofNat n + r.shift).toNat

def upperChar (c : Char) : List Char :=
  if c.toNat < 128 then [c.toUpper]
  else match longCapitals.lookup c.toNat with
    | some cs => cs.map Char.ofNat
    | none => match moveBy (pairedRuns ++ capitalRuns) c.toNat with
      | some n => [Char.ofNat n]
      | none => [c]

/-- the small form of one character that is not a capital sigma -/
def lowerChar (c : Char) : List Char :=
  if c.toNat < 128 then [c.toLower]
  else if c.toNat == 304 then ['i', Char.ofNat 775]
  else match moveBy (pairedRuns.map CaseRun.turned ++ smallRuns) c.toNat with
    | some n => [Char.ofNat n]
    | none => [c]

/-- does the nearest character that is not passed over have case? -/
def nearestCased (cs : List Char) : Bool :=
  match cs.dropWhile isCaseIgnorable with
  | [] => false
  | c :: _ => isCased c

/-- the small form of a capital sigma: final after a letter with case when none follows -/
def lowerSigma (before after : List Char) : Char :=
  if nearestCased before && !nearestCased after then 'ς' else 'σ'

/-- lower case, with the characters already passed in reverse order -/
def lowerFrom (before : List Char) : List Char → List Char
  | [] => []
  | c :: cs =>
    let small := if c == 'Σ' then [lowerSigma before cs] else lowerChar c
    small ++ lowerFrom (c :: before) cs

def upper (s : String) : String := String.ofList (s.toList.flatMap upperChar)

def lower (s : String) : String := String.ofList (lowerFrom [] s.toList)

end BraceScript.Text
