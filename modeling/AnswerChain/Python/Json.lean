import Mathlib.Data.List.Basic

namespace AnswerChain.Python

/-- `d[k] = v` on an insertion-ordered dict: an existing key keeps its place. -/
def dictSet {α : Type} (d : List (String × α)) (k : String) (v : α) : List (String × α) :=
  if d.any (·.1 == k) then d.map fun e => if e.1 = k then (k, v) else e else d ++ [(k, v)]

def dictDel {α : Type} (d : List (String × α)) (k : String) : List (String × α) :=
  d.filter (·.1 != k)

def dictHas {α : Type} (d : List (String × α)) (k : String) : Bool := d.any (·.1 == k)

section

variable {α : Type} (d : List (String × α)) (k x : String)

theorem lookup_cons_eq (a : String) (b : α) :
    ((a, b) :: d).lookup x = if x = a then some b else d.lookup x := by
  show (match x == a with | true => some b | false => d.lookup x) = _
  split <;> simp_all

theorem dictHas_cons (a : String) (b : α) :
    dictHas ((a, b) :: d) k = (decide (a = k) || dictHas d k) := rfl

theorem dictHas_eq_isSome : dictHas d k = (d.lookup k).isSome := by
  induction d with
  | nil => rfl
  | cons e d ih =>
    obtain ⟨a, b⟩ := e
    by_cases h : a = k
    · simp [dictHas_cons, lookup_cons_eq, h]
    · simp [dictHas_cons, lookup_cons_eq, h, Ne.symm h, ih]

theorem lookup_map_set (v : α) :
    (d.map fun e => if e.1 = k then (k, v) else e).lookup x =
      if x = k then (if dictHas d k then some v else none) else d.lookup x := by
  induction d with
  | nil => by_cases hx : x = k <;> simp [dictHas, hx]
  | cons e d ih =>
    obtain ⟨a, b⟩ := e
    by_cases he : a = k
    · subst he
      by_cases hx : x = a <;> simp [lookup_cons_eq, dictHas_cons, hx, ih]
    · by_cases hx : x = a
      · simp [lookup_cons_eq, he, hx]
      · simp [lookup_cons_eq, dictHas_cons, he, hx, ih]

theorem lookup_dictSet (v : α) :
    (dictSet d k v).lookup x = if x = k then some v else d.lookup x := by
  unfold dictSet
  split
  · rename_i h
    rw [lookup_map_set]
    simp [show dictHas d k = true from h]
  · rename_i h
    induction d with
    | nil => by_cases hx : x = k <;> simp [lookup_cons_eq, hx]
    | cons e d ih =>
      obtain ⟨a, b⟩ := e
      simp only [List.any_cons, Bool.or_eq_true, not_or, beq_iff_eq] at h
      rw [List.cons_append, lookup_cons_eq, lookup_cons_eq, ih (by simpa using h.2)]
      by_cases hx : x = a <;> simp [hx, h.1]

theorem dictHas_dictSet (v : α) :
    dictHas (dictSet d k v) x = (decide (x = k) || dictHas d x) := by
  rw [dictHas_eq_isSome, dictHas_eq_isSome, lookup_dictSet]
  by_cases hx : x = k <;> simp [hx]

theorem lookup_dictDel : (dictDel d k).lookup x = if x = k then none else d.lookup x := by
  induction d with
  | nil => simp [dictDel]
  | cons e d ih =>
    obtain ⟨a, b⟩ := e
    by_cases ha : a = k
    · subst ha
      have hd : dictDel ((a, b) :: d) a = dictDel d a := by simp [dictDel, List.filter_cons]
      rw [hd, ih, lookup_cons_eq]
      by_cases hx : x = a <;> simp [hx]
    · have hd : dictDel ((a, b) :: d) k = (a, b) :: dictDel d k := by
        simp [dictDel, List.filter_cons, ha]
      rw [hd, lookup_cons_eq, lookup_cons_eq, ih]
      by_cases hx : x = a <;> simp [hx, ha]

end

/-- The JSON values the bot writes. A `float` here has a whole value below `2 ^ 53` in size, as the
clock readings and their differences are. -/
inductive Json where
  | null
  | bool (b : Bool)
  | int (i : Int)
  | float (x : Int)
  | str (s : String)
  | arr (items : List Json)
  | obj (fields : List (String × Json))
  deriving Repr, Inhabited

namespace Json

def hexDigit (n : Nat) : Char := if n < 10 then Char.ofNat (48 + n) else Char.ofNat (87 + n)

def hex4 (n : Nat) : List Char :=
  ['\\', 'u', hexDigit (n / 4096 % 16), hexDigit (n / 256 % 16), hexDigit (n / 16 % 16),
    hexDigit (n % 16)]

def escapeChar (c : Char) : List Char :=
  if c = '\\' then ['\\', '\\']
  else if c = '"' then ['\\', '"']
  else if c = '\n' then ['\\', 'n']
  else if c = '\r' then ['\\', 'r']
  else if c = '\t' then ['\\', 't']
  else if c.toNat = 8 then ['\\', 'b']
  else if c.toNat = 12 then ['\\', 'f']
  else if 0x20 ≤ c.toNat ∧ c.toNat ≤ 0x7E then [c]
  else if c.toNat < 0x10000 then hex4 c.toNat
  else hex4 (0xD800 + (c.toNat - 0x10000) / 1024) ++ hex4 (0xDC00 + (c.toNat - 0x10000) % 1024)

def quote (s : String) : String := "\"" ++ String.mk (s.data.flatMap escapeChar) ++ "\""

def indent (level : Nat) : String := String.mk (List.replicate (2 * level) ' ')

mutual

/-- `json.dumps(v, indent=2)` of a value nested `level` deep. -/
def dumpsAt (level : Nat) : Json → String
  | .null => "null"
  | .bool b => if b then "true" else "false"
  | .int i => toString i
  | .float x => toString x ++ ".0"
  | .str s => quote s
  | .arr [] => "[]"
  | .arr items => "[" ++ dumpsItems (level + 1) items ++ "\n" ++ indent level ++ "]"
  | .obj [] => "\x7b\x7d"
  | .obj fields =>
    "\x7b" ++ dumpsFields (level + 1) fields ++ "\n" ++ indent level ++ "\x7d"

def dumpsItems (level : Nat) : List Json → String
  | [] => ""
  | [v] => "\n" ++ indent level ++ dumpsAt level v
  | v :: vs => "\n" ++ indent level ++ dumpsAt level v ++ "," ++ dumpsItems level vs

def dumpsFields (level : Nat) : List (String × Json) → String
  | [] => ""
  | [(k, v)] => "\n" ++ indent level ++ quote k ++ ": " ++ dumpsAt level v
  | (k, v) :: fs =>
    "\n" ++ indent level ++ quote k ++ ": " ++ dumpsAt level v ++ "," ++ dumpsFields level fs

end

def dumps (v : Json) : String := dumpsAt 0 v

def get? (v : Json) (key : String) : Option Json :=
  match v with
  | .obj fields => fields.lookup key
  | _ => none

def set (d : Json) (key : String) (v : Json) : Json :=
  match d with
  | .obj fields => .obj (dictSet fields key v)
  | d => d

end Json

end AnswerChain.Python
