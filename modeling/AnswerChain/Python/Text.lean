import Mathlib.Data.List.Infix

/-! The few Python string and `os.path` operations the bot uses to name answer ids, folders and
files, written over the characters of a string so that they compute. -/

namespace AnswerChain.Python

def isSpace (c : Char) : Bool :=
  let n := c.toNat
  (0x09 ≤ n && n ≤ 0x0D) || (0x1C ≤ n && n ≤ 0x20) || n == 0x85 || n == 0xA0 || n == 0x1680 ||
    (0x2000 ≤ n && n ≤ 0x200A) || n == 0x2028 || n == 0x2029 || n == 0x202F || n == 0x205F ||
    n == 0x3000

/-- `s.split(sep)` for a one-character separator: empty pieces are kept. -/
def splitOn (sep : Char) : List Char → List (List Char)
  | [] => [[]]
  | c :: cs =>
    match splitOn sep cs with
    | [] => [[c]]
    | w :: ws => if c = sep then [] :: w :: ws else (c :: w) :: ws

def strip (s : List Char) : List Char :=
  ((s.dropWhile isSpace).reverse.dropWhile isSpace).reverse

def join (glue : String) : List String → String
  | [] => ""
  | [s] => s
  | s :: ss => s ++ glue ++ join glue ss

@[simp] theorem join_singleton (glue s : String) : join glue [s] = s := rfl

theorem join_cons (glue s : String) {l : List String} (hl : l ≠ []) :
    join glue (s :: l) = s ++ glue ++ join glue l := by
  cases l with
  | nil => exact absurd rfl hl
  | cons _ _ => rfl

theorem join_append (glue : String) {a b : List String} (ha : a ≠ []) (hb : b ≠ []) :
    join glue (a ++ b) = join glue a ++ glue ++ join glue b := by
  induction a with
  | nil => exact absurd rfl ha
  | cons s a ih =>
    rcases a with _ | ⟨s', a⟩
    · exact join_cons glue s hb
    · rw [List.cons_append, join_cons glue s (by simp), ih (by simp), join_cons glue s (by simp)]
      simp only [String.append_assoc]

/-- `glue.join([p.strip() for p in s.split(" ") if p.strip()])`, the code's cleaning of an area,
a subtopic or a project name before it goes into a path. -/
def joinWords (glue s : String) : String :=
  join glue (((splitOn ' ' s.data).map strip).filter (· ≠ []) |>.map String.mk)

def startsWithSlash (s : String) : Bool := s.data.head? == some '/'

def endsWithSlash (s : String) : Bool := s.data.getLast? == some '/'

/-- `os.path.join(a, *parts)` on POSIX: an absolute part restarts the path. -/
def pathJoin (a : String) (parts : List String) : String :=
  parts.foldl (fun path b =>
    if startsWithSlash b then b
    else if path = "" ∨ endsWithSlash path then path ++ b
    else path ++ "/" ++ b) a

def components (p : List Char) : List (List Char) :=
  (splitOn '/' p).filter fun c => c ≠ [] ∧ c ≠ ['.']

/-- One more component onto the directories walked so far, latest first: `..` goes back up one,
stays at the root of an absolute path, and is kept at the start of a relative one. -/
def walk (abs : Bool) (dirs : List (List Char)) (c : List Char) : List (List Char) :=
  if c = ['.', '.'] then
    match dirs with
    | d :: ds => if d = ['.', '.'] then c :: dirs else ds
    | [] => if abs then [] else [c]
  else c :: dirs

/-- The file a path names, spelled as `os.path.normpath` spells it: whether it is absolute, and its
components with every `..` resolved. The folders the bot writes hold no symbolic link, under which
`..` would lead elsewhere. -/
def fileKey (p : String) : Bool × List (List Char) :=
  (startsWithSlash p, ((components p.data).foldl (walk (startsWithSlash p)) []).reverse)

def NoDotDot (s : String) : Prop := ['.', '.'] ∉ splitOn '/' s.data

instance (s : String) : Decidable (NoDotDot s) := inferInstanceAs (Decidable (_ ∉ _))

def isIn (t s : String) : Prop := t.data <:+: s.data

def occursIn (t : List Char) : List Char → Bool
  | [] => t.isEmpty
  | c :: cs => t.isPrefixOf (c :: cs) || occursIn t cs

theorem occursIn_iff (t s : List Char) : occursIn t s = true ↔ t <:+: s := by
  induction s with
  | nil => simp [occursIn, List.isEmpty_iff]
  | cons c cs ih => simp [occursIn, ih, List.infix_cons_iff, List.isPrefixOf_iff_prefix]

instance (t s : String) : Decidable (isIn t s) := decidable_of_iff _ (occursIn_iff t.data s.data)

theorem splitOn_of_not_mem {sep : Char} {s : List Char} (h : sep ∉ s) : splitOn sep s = [s] := by
  induction s with
  | nil => rfl
  | cons c cs ih =>
    simp only [List.mem_cons, not_or] at h
    simp [splitOn, ih h.2, Ne.symm h.1]

theorem splitOn_append_of_not_mem {sep : Char} {s : List Char} (hs : sep ∉ s) (x : List Char) :
    ∃ init c, splitOn sep x = init ++ [c] ∧ splitOn sep (x ++ s) = init ++ [c ++ s] := by
  induction x with
  | nil => exact ⟨[], [], rfl, by simp [splitOn_of_not_mem hs]⟩
  | cons a x ih =>
    obtain ⟨init, c, h0, h⟩ := ih
    by_cases ha : a = sep
    · exact ⟨[] :: init, c, by cases init <;> simp [splitOn, h0, ha],
        by cases init <;> simp [splitOn, h, ha]⟩
    · rcases init with _ | ⟨i, init⟩
      · exact ⟨[], a :: c, by simp [splitOn, h0, ha], by simp [splitOn, h, ha]⟩
      · exact ⟨(a :: i) :: init, c, by simp [splitOn, h0, ha], by simp [splitOn, h, ha]⟩

theorem isIn_self (t : String) : isIn t t := List.infix_refl _

theorem isIn_append_left {t a : String} (b : String) (h : isIn t a) : isIn t (a ++ b) := by
  simpa [isIn] using h.trans (List.infix_append [] a.data b.data)

theorem isIn_append_right (a : String) {t b : String} (h : isIn t b) : isIn t (a ++ b) := by
  simpa [isIn] using h.trans (List.infix_append a.data b.data [])

theorem isIn_foldl_append {t a : String} (h : isIn t a) (bs : List String) :
    isIn t (bs.foldl (· ++ ·) a) := by
  induction bs generalizing a with
  | nil => exact h
  | cons b bs ih => exact ih (isIn_append_left b h)

theorem isIn_join_of_mem (glue : String) {t : String} {ls : List String} (h : t ∈ ls) :
    isIn t (join glue ls) := by
  induction ls with
  | nil => simp at h
  | cons l ls ih =>
    rcases ls with _ | ⟨l', ls⟩
    · simpa [List.mem_singleton.1 h] using isIn_self l
    · rw [join_cons glue l (List.cons_ne_nil _ _)]
      rcases List.mem_cons.1 h with rfl | h
      · exact isIn_append_left _ (isIn_append_left _ (isIn_self t))
      · exact isIn_append_right _ (ih h)

theorem infix_of_infix_append_cons {sep : Char} {t a b : List Char} (ht : sep ∉ t)
    (h : t <:+: a ++ sep :: b) : t <:+: a ∨ t <:+: b := by
  obtain ⟨s, u, h⟩ := h
  rcases List.append_eq_append_iff.1 h with ⟨a', rfl, -⟩ | ⟨c', hc, hu⟩
  · exact .inl ⟨s, a', rfl⟩
  · rcases c' with _ | ⟨x, c'⟩
    · exact .inl ⟨s, [], by simpa using hc⟩
    · obtain ⟨rfl, rfl⟩ := List.cons.inj hu
      rcases List.append_eq_append_iff.1 hc with ⟨a', -, rfl⟩ | ⟨c'', -, hc'⟩
      · exact absurd (by simp) ht
      · rcases c'' with _ | ⟨y, c''⟩
        · rw [List.nil_append] at hc'
          exact absurd (hc' ▸ List.mem_cons_self _ _) ht
        · obtain ⟨-, rfl⟩ := List.cons.inj hc'
          exact .inr ⟨c'', u, by simp⟩

theorem isIn_join_of_not_mem {t : String} (ht : '\n' ∉ t.data) (l : String) (ls : List String)
    (h : isIn t (join "\n" (l :: ls))) : ∃ l' ∈ l :: ls, isIn t l' := by
  induction ls generalizing l with
  | nil => exact ⟨l, List.mem_singleton_self l, h⟩
  | cons l' ls ih =>
    rcases infix_of_infix_append_cons ht (b := (join "\n" (l' :: ls)).data)
      (by simpa [isIn, join] using h) with h | h
    · exact ⟨l, List.mem_cons_self _ _, h⟩
    · obtain ⟨l'', hm, h⟩ := ih l' h
      exact ⟨l'', List.mem_cons_of_mem _ hm, h⟩

theorem strip_of_forall {s : List Char} (h : ∀ c ∈ s, isSpace c = false) : strip s = s := by
  have hd : ∀ l : List Char, (∀ c ∈ l, isSpace c = false) → l.dropWhile isSpace = l := by
    intro l hl
    cases l with
    | nil => rfl
    | cons c cs => simp [List.dropWhile, hl c (List.mem_cons_self c cs)]
  simp only [strip, hd s h, hd s.reverse (by simpa using h), List.reverse_reverse]

theorem joinWords_empty_of_forall {s : String} (h : ∀ c ∈ s.data, isSpace c = false) :
    joinWords "" s = s := by
  have hsp : ' ' ∉ s.data := fun hm => by simpa [isSpace] using h ' ' hm
  by_cases he : s.data = []
  · simp [joinWords, splitOn_of_not_mem hsp, he, strip, join, String.ext_iff]
  · simp [joinWords, splitOn_of_not_mem hsp, strip_of_forall h, he, join]

theorem startsWithSlash_append {a : String} (b : String) (ha : a.data ≠ []) :
    startsWithSlash (a ++ b) = startsWithSlash a := by
  cases h : a.data.head? with
  | none => simp at h; exact absurd h ha
  | some c => simp [startsWithSlash, h]

theorem endsWithSlash_append (a : String) {b : String} (hb : b.data ≠ []) :
    endsWithSlash (a ++ b) = endsWithSlash b := by
  cases h : b.data.getLast? with
  | none => simp at h; exact absurd h hb
  | some c => simp [endsWithSlash, h]

theorem startsWithSlash_of_not_mem {s : String} (h : '/' ∉ s.data) : startsWithSlash s = false := by
  cases hs : s.data with
  | nil => simp [startsWithSlash, hs]
  | cons c cs =>
    have hc : c ≠ '/' := fun e => h (by simp [hs, e])
    simp [startsWithSlash, hs, hc]

theorem endsWithSlash_of_not_mem {s : String} (h : '/' ∉ s.data) : endsWithSlash s = false := by
  cases hs : s.data.getLast? with
  | none => simp [endsWithSlash, hs]
  | some c =>
    obtain ⟨ys, hys⟩ := List.getLast?_eq_some_iff.1 hs
    have hc : c ≠ '/' := fun e => h (by simp [hys, e])
    simp [endsWithSlash, hs, hc]

theorem startsWithSlash_append_eq_false {a b : String} (ha : startsWithSlash a = false)
    (hb : startsWithSlash b = false) : startsWithSlash (a ++ b) = false := by
  by_cases h : a.data = []
  · rw [show a = "" from String.ext h, String.empty_append]
    exact hb
  · rw [startsWithSlash_append _ h, ha]

theorem pathJoin_nil (a : String) : pathJoin a [] = a := rfl

theorem pathJoin_cons (a b : String) (bs : List String) :
    pathJoin a (b :: bs) = pathJoin
      (if startsWithSlash b then b else if a = "" ∨ endsWithSlash a then a ++ b else a ++ "/" ++ b)
      bs := rfl

theorem pathJoin_one (a b : String) : ∃ x, (pathJoin a [b]).data = x ++ b.data := by
  simp only [pathJoin_cons, pathJoin_nil]
  split_ifs
  · exact ⟨[], rfl⟩
  · exact ⟨a.data, by simp⟩
  · exact ⟨a.data ++ ['/'], by simp⟩

def rootSep (root : String) : String := if root = "" ∨ endsWithSlash root then "" else "/"

theorem pathJoin_two {r b n : String} (hb : startsWithSlash b = false) (hb' : b.data ≠ [])
    (hbe : endsWithSlash b = false) (hn : startsWithSlash n = false) :
    pathJoin r [b, n] = r ++ rootSep r ++ b ++ "/" ++ n := by
  have hP : (if r = "" ∨ endsWithSlash r then r ++ b else r ++ "/" ++ b) = r ++ rootSep r ++ b := by
    unfold rootSep; split <;> simp
  have hne : r ++ rootSep r ++ b ≠ "" := fun h => hb' (by
    have := congrArg String.data h; simp at this; exact this.2.2)
  have hend : endsWithSlash (r ++ rootSep r ++ b) = false := by rw [endsWithSlash_append _ hb', hbe]
  simp only [pathJoin_cons, pathJoin_nil, hb, hn, Bool.false_eq_true, if_false, hP, hne, hend,
    false_or]

theorem splitOn_ne_nil (sep : Char) : ∀ l : List Char, splitOn sep l ≠ []
  | [] => List.cons_ne_nil _ _
  | c :: cs => by
    simp only [splitOn]
    split
    · exact List.cons_ne_nil _ _
    · split <;> exact List.cons_ne_nil _ _

theorem splitOn_append_cons (sep : Char) (x y : List Char) :
    splitOn sep (x ++ sep :: y) = splitOn sep x ++ splitOn sep y := by
  induction x with
  | nil =>
    obtain ⟨w, ws, h⟩ := List.exists_cons_of_ne_nil (splitOn_ne_nil sep y)
    simp [splitOn, h]
  | cons a x ih =>
    obtain ⟨w, ws, h⟩ := List.exists_cons_of_ne_nil (splitOn_ne_nil sep x)
    by_cases ha : a = sep <;> simp [splitOn, ih, h, ha]

theorem walk_of_ne {abs : Bool} {dirs : List (List Char)} {c : List Char}
    (h : c ≠ ['.', '.']) : walk abs dirs c = c :: dirs := if_neg h

theorem foldl_walk {abs : Bool} :
    ∀ {cs : List (List Char)}, (∀ c ∈ cs, c ≠ ['.', '.']) →
      ∀ dirs, cs.foldl (walk abs) dirs = cs.reverse ++ dirs
  | [], _, _ => rfl
  | c :: cs, h, dirs => by
    rw [List.foldl_cons, walk_of_ne (h c (List.mem_cons_self _ _)),
      foldl_walk (fun c' hc => h c' (List.mem_cons_of_mem _ hc))]
    simp

theorem components_ne {p : List Char} (hp : ['.', '.'] ∉ splitOn '/' p) :
    ∀ c ∈ components p, c ≠ ['.', '.'] :=
  fun _ hc he => hp (he ▸ List.mem_of_mem_filter hc)

theorem fileKey_of_noDotDot {b : String} (hb : NoDotDot b) : (fileKey b).2 = components b.data := by
  simp [fileKey, foldl_walk (components_ne hb)]

theorem components_sep (a b : List Char) :
    components (a ++ '/' :: b) = components a ++ components b := by
  simp only [components, splitOn_append_cons, List.filter_append]

theorem noDotDot_of_not_mem {s : String} (h : '/' ∉ s.data) (hdd : s.data ≠ ['.', '.']) :
    NoDotDot s := by
  simp [NoDotDot, splitOn_of_not_mem h, Ne.symm hdd]

theorem NoDotDot.append {t : String} (ht : NoDotDot t) {s : String} (hs : '/' ∉ s.data)
    (hlen : 3 ≤ s.data.length) : NoDotDot (t ++ s) := by
  obtain ⟨init, c, h0, h⟩ := splitOn_append_of_not_mem hs t.data
  unfold NoDotDot at ht ⊢
  rw [String.data_append, h]
  rw [h0] at ht
  simp only [List.mem_append, List.mem_singleton, not_or] at ht ⊢
  refine ⟨ht.1, fun he => ?_⟩
  have := congrArg List.length he
  simp only [List.length_append, List.length_cons, List.length_nil] at this
  omega

theorem fileKey_sep (a : String) {b : String} (hb : NoDotDot b) :
    (fileKey (a ++ "/" ++ b)).2 = (fileKey a).2 ++ (fileKey b).2 := by
  have hwalk : (components a.data).foldl (walk (startsWithSlash (a ++ "/" ++ b))) [] =
      (components a.data).foldl (walk (startsWithSlash a)) [] := by
    by_cases ha : a.data = []
    · simp [components, ha, splitOn]
    · rw [String.append_assoc, startsWithSlash_append _ ha]
  rw [fileKey_of_noDotDot hb]
  simp only [fileKey, String.data_append, show "/".data = ['/'] from rfl, List.append_assoc,
    List.singleton_append, components_sep, List.foldl_append, foldl_walk (components_ne hb)]
  simp [hwalk]

theorem fileKey_component {b : String} (hb : '/' ∉ b.data) (hne : b.data ≠ [])
    (hdot : b.data ≠ ['.']) (hdd : b.data ≠ ['.', '.']) : (fileKey b).2 = [b.data] := by
  rw [fileKey_of_noDotDot (noDotDot_of_not_mem hb hdd)]
  simp [components, splitOn_of_not_mem hb, hne, hdot]

theorem fileKey_rootSep (root : String) {b : String} (hb : NoDotDot b) :
    (fileKey (root ++ rootSep root ++ b)).2 = (fileKey root).2 ++ (fileKey b).2 := by
  unfold rootSep
  split
  next h =>
    rcases h with rfl | h
    · have h0 : (fileKey "").2 = [] := rfl
      simp only [String.empty_append, h0, List.nil_append]
    · obtain ⟨r, hr⟩ := List.getLast?_eq_some_iff.1 (by simpa [endsWithSlash] using h)
      have hroot : root = ⟨r⟩ ++ "/" ++ "" := String.ext (by simpa using hr)
      rw [hroot, fileKey_sep _ (by decide), String.append_empty, String.append_empty,
        fileKey_sep _ hb]
      simp [fileKey, components, splitOn]
  · exact fileKey_sep root hb

theorem fileKey_getLast {p : String} {x s : List Char} (hp : p.data = x ++ s) (hs : '/' ∉ s)
    (hlen : 2 ≤ s.length) (hdd : s ≠ ['.', '.']) : ∃ c, (fileKey p).2.getLast? = some (c ++ s) := by
  obtain ⟨init, c, -, h⟩ := splitOn_append_of_not_mem hs x
  have hcs : 2 ≤ (c ++ s).length := by rw [List.length_append]; omega
  have hkeep : c ++ s ≠ [] ∧ c ++ s ≠ ['.'] :=
    ⟨fun he => by simp [he] at hcs, fun he => by simp [he] at hcs⟩
  have hup : c ++ s ≠ ['.', '.'] := fun he => by
    obtain rfl : c = [] := List.eq_nil_of_length_eq_zero (by
      have := congrArg List.length he
      simp only [List.length_append, List.length_cons, List.length_nil] at this
      omega)
    exact hdd he
  refine ⟨c, ?_⟩
  simp only [fileKey, hp, components, h, List.filter_append, List.foldl_append]
  simp [hkeep, walk_of_ne hup]

theorem fileKey_ne_of_getLast {p p' : String} {x x' s s' : List Char} (hp : p.data = x ++ s)
    (hp' : p'.data = x' ++ s') (hs : '/' ∉ s) (hs' : '/' ∉ s') (hlen : 2 ≤ s.length)
    (hlen' : 2 ≤ s'.length) (hdd : s ≠ ['.', '.']) (hdd' : s' ≠ ['.', '.'])
    (hne : s.getLast? ≠ s'.getLast?) : fileKey p ≠ fileKey p' := by
  intro h
  obtain ⟨c, hc⟩ := fileKey_getLast hp hs hlen hdd
  obtain ⟨c', hc'⟩ := fileKey_getLast hp' hs' hlen' hdd'
  rw [h, hc'] at hc
  have hl := congrArg List.getLast? (Option.some.inj hc)
  rw [List.getLast?_append_of_ne_nil _ (List.ne_nil_of_length_pos (by omega)),
    List.getLast?_append_of_ne_nil _ (List.ne_nil_of_length_pos (by omega))] at hl
  exact hne hl.symm

def singleSep : List Char → Bool
  | [] => true
  | c :: cs => (c != '_' || cs.head?.any (· != '_')) && singleSep cs

theorem singleSep_of_not_mem {l : List Char} (h : '_' ∉ l) : singleSep l = true := by
  induction l with
  | nil => rfl
  | cons c cs ih =>
    simp only [List.mem_cons, not_or] at h
    simp [singleSep, Ne.symm h.1, ih h.2]

theorem singleSep_append {l m : List Char} (hl : '_' ∉ l) (hm : singleSep m = true)
    (hd : m.head?.any (· != '_') = true) : singleSep (l ++ '_' :: m) = true := by
  induction l with
  | nil => simp [singleSep, hm, hd]
  | cons c cs ih =>
    simp only [List.mem_cons, not_or] at hl
    simp [singleSep, Ne.symm hl.1, ih hl.2]

theorem eq_of_singleSep {l₁ l₂ r₁ r₂ : List Char} (h₁ : singleSep l₁ = true)
    (h₂ : singleSep l₂ = true) (h : l₁ ++ '_' :: '_' :: r₁ = l₂ ++ '_' :: '_' :: r₂) :
    l₁ = l₂ ∧ r₁ = r₂ := by
  have hne : ∀ {c l r r'}, singleSep (c :: l) = true →
      c :: l ++ '_' :: '_' :: r ≠ '_' :: '_' :: r' := by
    intro c l r r' hs he
    simp only [List.cons_append, List.cons.injEq] at he
    obtain ⟨rfl, he⟩ := he
    cases l with
    | nil => simp [singleSep] at hs
    | cons d l =>
      simp only [List.cons_append, List.cons.injEq] at he
      obtain ⟨rfl, -⟩ := he
      simp [singleSep] at hs
  induction l₁ generalizing l₂ with
  | nil =>
    cases l₂ with
    | nil => simpa using h
    | cons c l₂ => exact absurd h.symm (hne h₂)
  | cons c l₁ ih =>
    cases l₂ with
    | nil => exact absurd h (hne h₁)
    | cons d l₂ =>
      simp only [List.cons_append, List.cons.injEq] at h
      obtain ⟨rfl, h⟩ := h
      simp only [singleSep, Bool.and_eq_true] at h₁ h₂
      obtain ⟨rfl, hr⟩ := ih h₁.2 h₂.2 h
      exact ⟨rfl, hr⟩

theorem mem_of_mem_strip {s : List Char} {c : Char} (h : c ∈ strip s) : c ∈ s := by
  unfold strip at h
  rw [List.mem_reverse] at h
  have h := (List.dropWhile_suffix _).subset h
  rw [List.mem_reverse] at h
  exact (List.dropWhile_suffix _).subset h

theorem mem_of_mem_splitOn {sep : Char} {l w : List Char} (hw : w ∈ splitOn sep l) {c : Char}
    (hc : c ∈ w) : c ∈ l := by
  induction l generalizing w with
  | nil =>
    obtain rfl : w = [] := by simpa [splitOn] using hw
    simp at hc
  | cons d l ih =>
    simp only [splitOn] at hw
    split at hw
    · obtain rfl : w = [d] := by simpa using hw
      exact List.mem_cons.2 (.inl (List.mem_singleton.1 hc))
    · rename_i w' ws heq
      have ih' : ∀ {v}, v ∈ w' :: ws → c ∈ v → c ∈ l := fun hv => ih (heq ▸ hv)
      split at hw
      · rcases List.mem_cons.1 hw with rfl | hw
        · simp at hc
        · exact List.mem_cons_of_mem _ (ih' hw hc)
      · rcases List.mem_cons.1 hw with rfl | hw
        · rcases List.mem_cons.1 hc with rfl | hc
          · exact List.mem_cons_self _ _
          · exact List.mem_cons_of_mem _ (ih' (List.mem_cons_self _ _) hc)
        · exact List.mem_cons_of_mem _ (ih' (List.mem_cons_of_mem _ hw) hc)

theorem join_cons_data (glue w : String) (ws : List String) :
    ∃ x, (join glue (w :: ws)).data = w.data ++ x := by
  cases ws with
  | nil => exact ⟨[], by simp⟩
  | cons w' ws => exact ⟨(glue ++ join glue (w' :: ws)).data, by simp [join]⟩

theorem singleSep_join {ws : List String} (h : ∀ w ∈ ws, w.data ≠ [] ∧ '_' ∉ w.data) :
    singleSep (join "_" ws).data = true := by
  induction ws with
  | nil => rfl
  | cons w ws ih =>
    have hw := h w (List.mem_cons_self _ _)
    have hrest := ih fun v hv => h v (List.mem_cons_of_mem _ hv)
    cases ws with
    | nil => exact singleSep_of_not_mem hw.2
    | cons w' ws =>
      obtain ⟨d, ds, hd⟩ := List.exists_cons_of_ne_nil (h w' (by simp)).1
      have hdn : d ≠ '_' := fun e => (h w' (by simp)).2 (e ▸ hd ▸ List.mem_cons_self _ _)
      obtain ⟨x, hx⟩ := join_cons_data "_" w' ws
      rw [join_cons _ _ (List.cons_ne_nil _ _)]
      simp only [String.data_append, List.append_assoc]
      exact singleSep_append hw.2 hrest (by simp [hx, hd, hdn])

theorem singleSep_joinWords {s : String} (h : '_' ∉ s.data) :
    singleSep (joinWords "_" s).data = true := by
  refine singleSep_join fun w hw => ?_
  obtain ⟨v, hv, rfl⟩ := List.mem_map.1 hw
  obtain ⟨hv, hne⟩ := List.mem_filter.1 hv
  obtain ⟨u, hu, rfl⟩ := List.mem_map.1 hv
  exact ⟨by simpa using hne, fun hm => h (mem_of_mem_splitOn hu (mem_of_mem_strip hm))⟩

theorem mem_join {glue : String} {c : Char} :
    ∀ {ws : List String}, c ∈ (join glue ws).data → (∃ w ∈ ws, c ∈ w.data) ∨ c ∈ glue.data
  | [], h => by simp [join] at h
  | [w], h => .inl ⟨w, List.mem_singleton_self w, h⟩
  | w :: w' :: ws, h => by
    rw [join_cons _ _ (List.cons_ne_nil _ _)] at h
    simp only [String.data_append, List.mem_append] at h
    rcases h with (h | h) | h
    · exact .inl ⟨w, List.mem_cons_self _ _, h⟩
    · exact .inr h
    · exact (mem_join h).imp_left fun ⟨v, hv, hc⟩ => ⟨v, List.mem_cons_of_mem _ hv, hc⟩

theorem mem_joinWords {glue s : String} {c : Char} (h : c ∈ (joinWords glue s).data) :
    c ∈ s.data ∨ c ∈ glue.data := by
  refine (mem_join h).imp_left fun ⟨w, hw, hc⟩ => ?_
  obtain ⟨v, hv, rfl⟩ := List.mem_map.1 hw
  obtain ⟨u, hu, rfl⟩ := List.mem_map.1 (List.mem_filter.1 hv).1
  exact mem_of_mem_splitOn hu (mem_of_mem_strip hc)

def digitStep (n : Nat) (c : Char) : Nat := 10 * n + (c.toNat - 48)

theorem digitChar_lt_ten : ∀ k < 10,
    (Nat.digitChar k).toNat - 48 = k ∧ Nat.digitChar k ≠ '/' ∧ Nat.digitChar k ≠ '_' := by
  decide

theorem toDigitsCore_succ (f n : Nat) (ds : List Char) :
    Nat.toDigitsCore 10 (f + 1) n ds =
      if n / 10 = 0 then Nat.digitChar (n % 10) :: ds
      else Nat.toDigitsCore 10 f (n / 10) (Nat.digitChar (n % 10) :: ds) := rfl

theorem foldl_toDigitsCore : ∀ (f n : Nat) (ds : List Char), n < f →
    (Nat.toDigitsCore 10 f n ds).foldl digitStep 0 = ds.foldl digitStep n
  | 0, _, _, h => absurd h (Nat.not_lt_zero _)
  | f + 1, n, ds, h => by
    have hd := (digitChar_lt_ten (n % 10) (Nat.mod_lt _ (by decide))).1
    rw [toDigitsCore_succ]
    split
    · simp only [List.foldl_cons, digitStep, hd]
      congr 1
      omega
    · rw [foldl_toDigitsCore f (n / 10) _ (by omega)]
      simp only [List.foldl_cons, digitStep, hd]
      congr 1
      omega

theorem mem_toDigitsCore : ∀ (f n : Nat) (ds : List Char) {c : Char},
    c ∈ Nat.toDigitsCore 10 f n ds → c ∈ ds ∨ ∃ k < 10, c = Nat.digitChar k
  | 0, _, _, _, h => .inl h
  | f + 1, n, ds, c, h => by
    have hk : n % 10 < 10 := Nat.mod_lt _ (by decide)
    rw [toDigitsCore_succ] at h
    split at h
    · rcases List.mem_cons.1 h with rfl | h
      · exact .inr ⟨_, hk, rfl⟩
      · exact .inl h
    · rcases mem_toDigitsCore f _ _ h with h | h
      · rcases List.mem_cons.1 h with rfl | h
        · exact .inr ⟨_, hk, rfl⟩
        · exact .inl h
      · exact .inr h

theorem toString_injective : Function.Injective (toString : Nat → String) := by
  have hread : ∀ n : Nat, (toString n).data.foldl digitStep 0 = n := fun n =>
    foldl_toDigitsCore (n + 1) n [] (Nat.lt_succ_self n)
  intro m n h
  rw [← hread m, h, hread]

theorem not_mem_toString (n : Nat) : '/' ∉ (toString n).data ∧ '_' ∉ (toString n).data := by
  have hmem : ∀ c ∈ (toString n).data, ∃ k < 10, c = Nat.digitChar k := fun c hc =>
    (mem_toDigitsCore (n + 1) n [] hc).resolve_left (List.not_mem_nil _)
  constructor <;> intro hc <;> obtain ⟨k, hk, he⟩ := hmem _ hc
  · exact (digitChar_lt_ten k hk).2.1 he.symm
  · exact (digitChar_lt_ten k hk).2.2 he.symm

theorem eq_of_append_cons {c : Char} {l₁ l₂ r₁ r₂ : List Char} (h₁ : c ∉ l₁) (h₂ : c ∉ l₂)
    (h : l₁ ++ c :: r₁ = l₂ ++ c :: r₂) : l₁ = l₂ ∧ r₁ = r₂ := by
  induction l₁ generalizing l₂ with
  | nil =>
    cases l₂ with
    | nil => simpa using h
    | cons d l₂ =>
      simp only [List.nil_append, List.cons_append, List.cons.injEq] at h
      exact absurd (h.1 ▸ List.mem_cons_self _ _) h₂
  | cons d l₁ ih =>
    cases l₂ with
    | nil =>
      simp only [List.nil_append, List.cons_append, List.cons.injEq] at h
      exact absurd (h.1 ▸ List.mem_cons_self _ _) h₁
    | cons e l₂ =>
      simp only [List.cons_append, List.cons.injEq] at h
      obtain ⟨rfl, h⟩ := h
      obtain ⟨rfl, hr⟩ := ih (fun hm => h₁ (List.mem_cons_of_mem _ hm))
        (fun hm => h₂ (List.mem_cons_of_mem _ hm)) h
      exact ⟨rfl, hr⟩

end AnswerChain.Python
