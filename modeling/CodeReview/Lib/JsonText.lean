import Mathlib.Data.List.Basic
import Mathlib.Data.List.Infix
import Mathlib.Tactic.Common
import Mathlib.Tactic.SplitIfs

/-!
# JSON texts

The grammar of JSON, and a text that is cut off.

* `JsonText.Writes` : a text is that of a value, with blanks wherever the grammar has them;
* `JsonText.Closed` : the brackets of a text match and none of them is in an open string, which
  `Writes.closed` gives for every well-formed text;
* `JsonText.not_writes_of_cut` : **an object that is cut off is not well-formed;**
* `JsonText.quote_body` : the ASCII escapes of a text are those of the grammar.
-/

namespace JsonText

/-- A value.  What is neither a string nor a container is kept as it is written, and a string is
kept as its UTF-16 units. -/
inductive Tree where
  | scalar (text : List Char)
  | str (units : List ℕ)
  | arr (items : List Tree)
  | obj (members : List (List ℕ × Tree))

/-! ### The grammar -/

/-- The UTF-16 units of a character. -/
def utf16 (c : Char) : List ℕ :=
  if c.toNat < 0x10000 then [c.toNat]
  else [0xD800 + (c.toNat - 0x10000) / 0x400, 0xDC00 + (c.toNat - 0x10000) % 0x400]

/-- The units of a text. -/
def units (cs : List Char) : List ℕ := cs.flatMap utf16

/-- The characters that may follow a backslash, with the unit they stand for. -/
def escapes : List (Char × ℕ) :=
  [('"', 34), ('\\', 92), ('/', 47), ('b', 8), ('f', 12), ('n', 10), ('r', 13), ('t', 9)]

/-- The value of a hexadecimal digit. -/
def hexOf (c : Char) : Option ℕ :=
  if c.isDigit then some (c.toNat - 48)
  else if 97 ≤ c.toNat ∧ c.toNat ≤ 102 then some (c.toNat - 87)
  else if 65 ≤ c.toNat ∧ c.toNat ≤ 70 then some (c.toNat - 55)
  else none

/-- What stands between the quotes of a string. -/
inductive Body : List Char → List ℕ → Prop
  | nil : Body [] []
  | plain {c : Char} {t : List Char} {us : List ℕ} : c ≠ '"' → c ≠ '\\' → 32 ≤ c.toNat →
      Body t us → Body (c :: t) (utf16 c ++ us)
  | escape {c : Char} {u : ℕ} {t : List Char} {us : List ℕ} : (c, u) ∈ escapes →
      Body t us → Body ('\\' :: c :: t) (u :: us)
  | unicode {a b c d : Char} {w x y z : ℕ} {t : List Char} {us : List ℕ} : hexOf a = some w →
      hexOf b = some x → hexOf c = some y → hexOf d = some z → Body t us →
      Body ('\\' :: 'u' :: a :: b :: c :: d :: t) ((w * 4096 + x * 256 + y * 16 + z) :: us)

/-- One digit or more. -/
def IsDigits (t : List Char) : Prop := t ≠ [] ∧ ∀ c ∈ t, c.isDigit

/-- A number: sign, integer part without leading zeros, fraction and exponent. -/
inductive IsNumber : List Char → Prop
  | mk {sign int frac exp : List Char} : sign ∈ [[], ['-']] →
      (int = ['0'] ∨ IsDigits int ∧ int.head? ≠ some '0') →
      (frac = [] ∨ ∃ ds, IsDigits ds ∧ frac = '.' :: ds) →
      (exp = [] ∨ ∃ e ∈ ['e', 'E'], ∃ s ∈ [[], ['+'], ['-']], ∃ ds, IsDigits ds ∧
        exp = e :: (s ++ ds)) →
      IsNumber (sign ++ (int ++ (frac ++ exp)))

/-- The words of the grammar, with those that Python's reader has besides. -/
def words : List (List Char) :=
  ["true", "false", "null", "NaN", "Infinity", "-Infinity"].map String.toList

/-- A text of blanks. -/
def Blank (w : List Char) : Prop := ∀ c ∈ w, c ∈ [' ', '\t', '\n', '\r']

/-- What a text can be that of. -/
inductive Node where
  | value (t : Tree)
  | items (ts : List Tree)
  | members (ms : List (List ℕ × Tree))

/-- The text is one of the node. -/
inductive Writes : Node → List Char → Prop
  | scalar {t : List Char} : t ∈ words ∨ IsNumber t → Writes (.value (.scalar t)) t
  | str {t : List Char} {us : List ℕ} : Body t us → Writes (.value (.str us)) ('"' :: t ++ ['"'])
  | padded {w w' t : List Char} {v : Tree} : Blank w → Blank w' → Writes (.value v) t →
      Writes (.value v) (w ++ t ++ w')
  | emptyArr {w : List Char} : Blank w → Writes (.value (.arr [])) ('[' :: w ++ [']'])
  | arr {vs : List Tree} {t : List Char} : Writes (.items vs) t →
      Writes (.value (.arr vs)) ('[' :: t ++ [']'])
  | lastItem {v : Tree} {t : List Char} : Writes (.value v) t → Writes (.items [v]) t
  | item {v : Tree} {vs : List Tree} {t u : List Char} : Writes (.value v) t →
      Writes (.items vs) u → Writes (.items (v :: vs)) (t ++ ',' :: u)
  | emptyObj {w : List Char} : Blank w → Writes (.value (.obj [])) ('\x7b' :: w ++ ['\x7d'])
  | obj {ms : List (List ℕ × Tree)} {t : List Char} : Writes (.members ms) t →
      Writes (.value (.obj ms)) ('\x7b' :: t ++ ['\x7d'])
  | lastMember {w w' k t : List Char} {us : List ℕ} {v : Tree} : Blank w → Blank w' → Body k us →
      Writes (.value v) t → Writes (.members [(us, v)]) (w ++ ('"' :: k ++ ['"']) ++ w' ++ ':' :: t)
  | member {w w' k t u : List Char} {us : List ℕ} {v : Tree} {ms : List (List ℕ × Tree)} : Blank w →
      Blank w' → Body k us → Writes (.value v) t → Writes (.members ms) u →
      Writes (.members ((us, v) :: ms)) (w ++ ('"' :: k ++ ['"']) ++ w' ++ ':' :: t ++ ',' :: u)

/-! ### Matching brackets -/

/-- Where a scan for brackets stands, and how many are open. -/
inductive Scan where
  | outside (depth : ℕ)
  | inString (depth : ℕ)
  /-- In a string, after a backslash. -/
  | escaped (depth : ℕ)

namespace Scan

/-- The number of open brackets. -/
def depth : Scan → ℕ
  | outside d => d
  | inString d => d
  | escaped d => d

/-- One character. -/
def step : Scan → Char → Scan
  | outside d, c =>
    if c = '"' then inString d
    else if c = '[' ∨ c = '\x7b' then outside (d + 1)
    else if c = ']' ∨ c = '\x7d' then outside (d - 1)
    else outside d
  | inString d, c => if c = '"' then outside d else if c = '\\' then escaped d else inString d
  | escaped d, _ => inString d

/-- All of a text. -/
def run (s : Scan) (t : List Char) : Scan := t.foldl step s

theorem run_append (s : Scan) (t u : List Char) : s.run (t ++ u) = (s.run t).run u :=
  List.foldl_append ..

theorem run_cons (s : Scan) (c : Char) (t : List Char) : s.run (c :: t) = (s.step c).run t := rfl

end Scan

/-- The text opens and closes its own brackets and strings, and never closes more. -/
def Closed (t : List Char) : Prop :=
  ∀ d, (Scan.outside d).run t = .outside d ∧
    ∀ p q, p ++ q = t → d ≤ ((Scan.outside d).run p).depth

theorem Closed.nil : Closed [] := fun d =>
  ⟨rfl, fun p q h => by
    rw [(List.append_eq_nil_iff.1 h).1]
    exact le_rfl⟩

theorem Closed.append {t u : List Char} (ht : Closed t) (hu : Closed u) : Closed (t ++ u) := by
  intro d
  refine ⟨by rw [Scan.run_append, (ht d).1, (hu d).1], ?_⟩
  intro p q h
  -- the cut is in the first text or in the second
  rcases List.append_eq_append_iff.1 h with ⟨r, rfl, -⟩ | ⟨r, rfl, rfl⟩
  · exact (ht d).2 p r rfl
  · rw [Scan.run_append, (ht d).1]
    exact (hu d).2 r q rfl

/-- The characters that the scan reacts to. -/
def brackets : List Char := ['"', '[', ']', '\x7b', '\x7d']

theorem Closed.plain {t : List Char} (h : ∀ c ∈ t, c ∉ brackets) : Closed t := by
  intro d
  have hrun : ∀ p, (∀ c ∈ p, c ∉ brackets) → (Scan.outside d).run p = .outside d := by
    intro p hp
    induction p with
    | nil => rfl
    | cons c p ih =>
      obtain ⟨hc, hp⟩ := List.forall_mem_cons.1 hp
      have hstep : (Scan.outside d).step c = .outside d := by
        simp only [brackets, List.mem_cons, List.not_mem_nil, or_false, not_or] at hc
        simp [Scan.step, hc]
      rw [Scan.run_cons, hstep, ih hp]
  refine ⟨hrun t h, ?_⟩
  intro p q hpq
  rw [hrun p fun c hc => h c (hpq ▸ List.mem_append_left q hc)]
  exact le_rfl

/-- What is inside of brackets is one level deeper, up to the last one. -/
theorem depth_of_cut {o c : Char} (ho : o = '[' ∨ o = '\x7b') {t p q : List Char} (ht : Closed t)
    (hne : p ≠ []) (hq : q ≠ []) (h : p ++ q = o :: t ++ [c]) (d : ℕ) :
    d + 1 ≤ ((Scan.outside d).run p).depth := by
  have hstep : (Scan.outside d).step o = .outside (d + 1) := by
    rcases ho with rfl | rfl <;> rfl
  obtain ⟨q', c', rfl⟩ := List.eq_nil_or_concat' q |>.resolve_left hq
  rw [← List.append_assoc] at h
  have hinit : p ++ q' = o :: t := (List.append_inj' h rfl).1
  cases p with
  | nil => exact absurd rfl hne
  | cons o' p =>
    obtain ⟨rfl, hpq⟩ := List.cons_eq_cons.1 hinit
    rw [Scan.run_cons, hstep]
    exact (ht (d + 1)).2 p q' hpq

theorem Closed.bracket {o c : Char} (ho : o = '[' ∨ o = '\x7b') (hc : c = ']' ∨ c = '\x7d')
    {t : List Char} (ht : Closed t) : Closed (o :: t ++ [c]) := by
  intro d
  have hrun : (Scan.outside d).run (o :: t ++ [c]) = .outside d := by
    have hopen : (Scan.outside d).step o = .outside (d + 1) := by
      rcases ho with rfl | rfl <;> rfl
    have hinner : (Scan.outside d).run (o :: t) = .outside (d + 1) := by
      rw [Scan.run_cons, hopen, (ht (d + 1)).1]
    rw [Scan.run_append, hinner]
    rcases hc with rfl | rfl <;> rfl
  refine ⟨hrun, ?_⟩
  intro p q h
  by_cases hp : p = []
  · rw [hp]
    exact le_rfl
  · by_cases hq : q = []
    · rw [hq, List.append_nil] at h
      rw [h, hrun]
      exact le_rfl
    · exact (Nat.le_succ d).trans (depth_of_cut ho ht hp hq h d)

/-- The scan is inside of a string. -/
def Inner (d : ℕ) (s : Scan) : Prop := s = .inString d ∨ s = .escaped d

/-- Every beginning of the text leaves the scan inside of the string. -/
def Stays (d : ℕ) (s : Scan) (t : List Char) : Prop := ∀ p q, p ++ q = t → Inner d (s.run p)

theorem Stays.nil {d : ℕ} {s : Scan} (hs : Inner d s) : Stays d s [] := fun p q h => by
  rw [(List.append_eq_nil_iff.1 h).1]
  exact hs

theorem Stays.cons {d : ℕ} {s : Scan} {c : Char} {t : List Char} (hs : Inner d s)
    (h : Stays d (s.step c) t) : Stays d s (c :: t) := by
  intro p q hpq
  cases p with
  | nil => exact hs
  | cons c' p =>
    obtain ⟨rfl, rfl⟩ := List.cons_eq_cons.1 hpq
    exact h p q rfl

theorem step_plain {c : Char} (hq : c ≠ '"') (hb : c ≠ '\\') (d : ℕ) :
    (Scan.inString d).step c = .inString d := by
  simp [Scan.step, hq, hb]

theorem step_hex {c : Char} {n : ℕ} (h : hexOf c = some n) (d : ℕ) :
    (Scan.inString d).step c = .inString d := by
  have hquote : hexOf '"' = none := by decide
  have hback : hexOf '\\' = none := by decide
  refine step_plain ?_ ?_ d <;> rintro rfl <;> simp_all

/-- Between its quotes a string opens and closes nothing. -/
theorem stays_body {t : List Char} {us : List ℕ} (h : Body t us) (d : ℕ) :
    (Scan.inString d).run t = .inString d ∧ Stays d (.inString d) t := by
  have hin : Inner d (.inString d) := .inl rfl
  have hesc : Inner d (.escaped d) := .inr rfl
  induction h with
  | nil => exact ⟨rfl, .nil hin⟩
  | plain hq hb _ _ ih =>
    refine ⟨by rw [Scan.run_cons, step_plain hq hb, ih.1], .cons hin ?_⟩
    rw [step_plain hq hb]
    exact ih.2
  | escape _ _ ih => exact ⟨ih.1, .cons hin (.cons hesc ih.2)⟩
  | unicode ha hb hc hd _ ih =>
    -- after `\u` every digit leaves the scan in the string
    have hdigit {c : Char} {n : ℕ} {t : List Char} (hc : hexOf c = some n)
        (ht : (Scan.inString d).run t = .inString d ∧ Stays d (.inString d) t) :
        (Scan.inString d).run (c :: t) = .inString d ∧ Stays d (.inString d) (c :: t) := by
      refine ⟨by rw [Scan.run_cons, step_hex hc, ht.1], .cons hin ?_⟩
      rw [step_hex hc]
      exact ht.2
    have hdigits := hdigit ha (hdigit hb (hdigit hc (hdigit hd ih)))
    exact ⟨hdigits.1, .cons hin (.cons hesc hdigits.2)⟩

theorem Inner.depth {d : ℕ} {s : Scan} (h : Inner d s) : s.depth = d := by
  rcases h with rfl | rfl <;> rfl

theorem Closed.string {t : List Char} {us : List ℕ} (h : Body t us) :
    Closed ('"' :: t ++ ['"']) := by
  intro d
  obtain ⟨hrun, hstays⟩ := stays_body h d
  have hclose : (Scan.outside d).run ('"' :: t ++ ['"']) = .outside d := by
    rw [Scan.run_append, Scan.run_cons]
    change ((Scan.inString d).run t).run ['"'] = _
    rw [hrun]
    rfl
  refine ⟨hclose, ?_⟩
  intro p q hpq
  rcases List.append_eq_append_iff.1 hpq with ⟨r, hr, -⟩ | ⟨r, rfl, hr⟩
  · cases p with
    | nil => exact le_rfl
    | cons c p =>
      obtain ⟨rfl, rfl⟩ := List.cons_eq_cons.1 hr
      exact (hstays p r rfl).depth.ge
  · -- the cut is before the closing quote or after it
    cases r with
    | nil =>
      rw [List.append_nil, Scan.run_cons]
      exact (hstays t [] (List.append_nil t)).depth.ge
    | cons c r =>
      obtain ⟨rfl, hnil⟩ := List.cons_eq_cons.1 hr
      rw [(List.append_eq_nil_iff.1 hnil.symm).1, hclose]
      exact le_rfl

/-! ### Well-formed texts -/

theorem closed_blank {w : List Char} (h : Blank w) : Closed w := by
  have hne : ∀ c ∈ [' ', '\t', '\n', '\r'], c ∉ brackets := by simp [brackets]
  exact .plain fun c hc => hne c (h c hc)

theorem not_bracket_of_isDigit {c : Char} (h : c.isDigit) : c ∉ brackets := by
  have hne : ∀ d ∈ brackets, d.isDigit = false := by
    simp [brackets, Char.isDigit]
  intro hc
  simp [hne c hc] at h

theorem closed_number {t : List Char} (h : IsNumber t) : Closed t := by
  obtain ⟨hsign, hint, hfrac, hexp⟩ := h
  have hdigits {ds : List Char} (h : IsDigits ds) : Closed ds :=
    .plain fun c hc => not_bracket_of_isDigit (h.2 c hc)
  have hsign' {s : List Char} (h : s ∈ [[], ['+'], ['-']]) : Closed s := by
    have hne : ∀ s ∈ [[], ['+'], ['-']], ∀ c ∈ s, c ∉ brackets := by simp [brackets]
    exact .plain (hne s h)
  refine .append ?_ (.append ?_ (.append ?_ ?_))
  · exact hsign' ((show [[], ['-']] ⊆ [[], ['+'], ['-']] by decide) hsign)
  · rcases hint with rfl | ⟨hint, -⟩
    · exact .plain (by simp [brackets])
    · exact hdigits hint
  · rcases hfrac with rfl | ⟨ds, hds, rfl⟩
    · exact .nil
    · exact Closed.append (t := ['.']) (.plain (by simp [brackets])) (hdigits hds)
  · rcases hexp with rfl | ⟨e, he, s, hs, ds, hds, rfl⟩
    · exact .nil
    · have he' : Closed [e] := by
        have hne : ∀ e ∈ ['e', 'E'], ∀ c ∈ [e], c ∉ brackets := by simp [brackets]
        exact .plain (hne e he)
      exact he'.append ((hsign' hs).append (hdigits hds))

/-- **A well-formed text is closed.** -/
theorem Writes.closed {node : Node} {t : List Char} (h : Writes node t) : Closed t := by
  have hcomma : Closed [','] := .plain (by simp [brackets])
  have hcolon : Closed [':'] := .plain (by simp [brackets])
  induction h with
  | scalar h =>
    rcases h with h | h
    · have hwords : ∀ w ∈ words, ∀ c ∈ w, c ∉ brackets := by
        simp [words, brackets]
      exact .plain (hwords _ h)
    · exact closed_number h
  | str h => exact .string h
  | padded hw hw' _ ih => exact ((closed_blank hw).append ih).append (closed_blank hw')
  | emptyArr hw => exact .bracket (.inl rfl) (.inl rfl) (closed_blank hw)
  | arr _ ih => exact .bracket (.inl rfl) (.inl rfl) ih
  | lastItem _ ih => exact ih
  | item _ _ ih ih' => exact ih.append (hcomma.append ih')
  | emptyObj hw => exact .bracket (.inr rfl) (.inr rfl) (closed_blank hw)
  | obj _ ih => exact .bracket (.inr rfl) (.inr rfl) ih
  | lastMember hw hw' hk _ ih =>
    exact (((closed_blank hw).append (.string hk)).append (closed_blank hw')).append
      (hcolon.append ih)
  | member hw hw' hk _ _ ih ih' =>
    exact ((((closed_blank hw).append (.string hk)).append (closed_blank hw')).append
      (hcolon.append ih)).append (hcomma.append ih')

/-- **An object that is cut off is not well-formed.** -/
theorem not_writes_of_cut {t p q : List Char} (ht : Closed t) (hp : p ≠ []) (hq : q ≠ [])
    (h : p ++ q = '\x7b' :: t ++ ['\x7d']) (node : Node) : ¬ Writes node p := by
  intro hw
  have hdepth := depth_of_cut (.inr rfl) ht hp hq h 0
  rw [(hw.closed 0).1] at hdepth
  exact absurd hdepth (by decide)

/-! ### Writing strings and numbers -/

/-- The characters that have a short escape. -/
def shortEscapes : List (Char × Char) :=
  [('"', '"'), ('\\', '\\'), (Char.ofNat 8, 'b'), (Char.ofNat 12, 'f'), ('\n', 'n'), ('\r', 'r'),
    ('\t', 't')]

/-- A hexadecimal digit. -/
def hexDigit (n : ℕ) : Char := "0123456789abcdef".toList.getD n '0'

/-- Four hexadecimal digits. -/
def hex4 (u : ℕ) : List Char :=
  [hexDigit (u / 4096 % 16), hexDigit (u / 256 % 16), hexDigit (u / 16 % 16), hexDigit (u % 16)]

/-- A character in an ASCII-only string. -/
def quoteChar (c : Char) : List Char :=
  match shortEscapes.find? (·.1 = c) with
  | some e => ['\\', e.2]
  | none =>
    if 32 ≤ c.toNat ∧ c.toNat < 127 then [c]
    else (utf16 c).flatMap fun u => '\\' :: 'u' :: hex4 u

/-- A string with its quotes. -/
def quote (cs : List Char) : List Char := '"' :: cs.flatMap quoteChar ++ ['"']

/-- A quoted character is printable. -/
theorem printable_quoteChar {c d : Char} (h : d ∈ quoteChar c) : 32 ≤ d.toNat := by
  have hshort : ∀ e ∈ shortEscapes, ∀ d ∈ ['\\', e.2], 32 ≤ d.toNat := by
    simp [shortEscapes]
  have hhex : ∀ n : Fin 16, 32 ≤ (hexDigit n).toNat := by decide
  unfold quoteChar at h
  split at h
  · rename_i e he
    exact hshort e (List.mem_of_find?_eq_some he) d h
  · split_ifs at h with hprint
    · rw [List.mem_singleton.1 h]
      exact hprint.1
    · obtain ⟨u, -, hd⟩ := List.mem_flatMap.1 h
      simp only [hex4, List.mem_cons, List.not_mem_nil, or_false] at hd
      rcases hd with rfl | rfl | rfl | rfl | rfl | rfl
      · decide
      · decide
      all_goals exact hhex ⟨_, Nat.mod_lt _ (by decide)⟩

theorem printable_quote {cs : List Char} {d : Char} (h : d ∈ quote cs) : 32 ≤ d.toNat := by
  rcases List.mem_append.1 h with h | h
  · rcases List.mem_cons.1 h with rfl | h
    · decide
    · obtain ⟨c, -, hd⟩ := List.mem_flatMap.1 h
      exact printable_quoteChar hd
  · rw [List.mem_singleton.1 h]
    decide

/-- A number is printable. -/
theorem printable_number {t : List Char} (h : IsNumber t) : ∀ c ∈ t, 32 ≤ c.toNat := by
  obtain ⟨hsign, hint, hfrac, hexp⟩ := h
  have hdigits {ds : List Char} (h : IsDigits ds) : ∀ c ∈ ds, 32 ≤ c.toNat := fun c hc =>
    (Nat.le_add_right 32 16).trans (Char.isDigit_iff_toNat.1 (h.2 c hc)).1
  have hsigns : ∀ s ∈ [[], ['+'], ['-']], ∀ c ∈ s, 32 ≤ c.toNat := by simp
  simp only [List.forall_mem_append]
  refine ⟨?_, ?_, ?_, ?_⟩
  · exact hsigns _ ((show [[], ['-']] ⊆ [[], ['+'], ['-']] by decide) hsign)
  · rcases hint with rfl | ⟨hint, -⟩
    · simp
    · exact hdigits hint
  · rcases hfrac with rfl | ⟨ds, hds, rfl⟩
    · exact nofun
    · exact List.forall_mem_cons.2 ⟨by decide, hdigits hds⟩
  · rcases hexp with rfl | ⟨e, he, s, hs, ds, hds, rfl⟩
    · exact nofun
    · refine List.forall_mem_cons.2 ⟨?_, List.forall_mem_append.2 ⟨hsigns s hs, hdigits hds⟩⟩
      exact (show ∀ e ∈ ['e', 'E'], 32 ≤ e.toNat by simp) e he

theorem printable_word {t : List Char} (h : t ∈ words) : ∀ c ∈ t, 32 ≤ c.toNat :=
  (show ∀ t ∈ words, ∀ c ∈ t, 32 ≤ c.toNat by simp [words]) t h

theorem Body.append {t u : List Char} {us vs : List ℕ} (ht : Body t us) (hu : Body u vs) :
    Body (t ++ u) (us ++ vs) := by
  induction ht with
  | nil => exact hu
  | plain hq hb h32 _ ih =>
    rw [List.append_assoc]
    exact .plain hq hb h32 ih
  | escape h _ ih => exact .escape h ih
  | unicode ha hb hc hd _ ih => exact .unicode ha hb hc hd ih

theorem body_hex4 {u : ℕ} (h : u < 65536) : Body ('\\' :: 'u' :: hex4 u) [u] := by
  have hhex : ∀ n : Fin 16, hexOf (hexDigit n) = some n := by decide
  have hdigit (n : ℕ) : hexOf (hexDigit (n % 16)) = some (n % 16) :=
    hhex ⟨n % 16, Nat.mod_lt n (by decide)⟩
  have hsum : u / 4096 % 16 * 4096 + u / 256 % 16 * 256 + u / 16 % 16 * 16 + u % 16 = u := by
    omega
  have hbody := Body.unicode (hdigit (u / 4096)) (hdigit (u / 256)) (hdigit (u / 16)) (hdigit u)
    Body.nil
  rwa [hsum] at hbody

/-- A unit has sixteen bits. -/
theorem lt_of_mem_utf16 {c : Char} {u : ℕ} (h : u ∈ utf16 c) : u < 65536 := by
  have hvalid : c.toNat < 0x110000 := by
    rcases c.valid with h | ⟨-, h⟩
    · exact Nat.lt_trans h (by decide)
    · exact h
  rw [utf16] at h
  split_ifs at h with hsmall
  · rw [List.mem_singleton.1 h]
    exact hsmall
  · simp only [List.mem_cons, List.not_mem_nil, or_false] at h
    omega

theorem body_quoteChar (c : Char) : Body (quoteChar c) (utf16 c) := by
  unfold quoteChar
  split
  · rename_i e he
    -- the escaped characters are short ones
    have hshort : ∀ e ∈ shortEscapes, (e.2, e.1.toNat) ∈ escapes ∧ utf16 e.1 = [e.1.toNat] := by
      decide
    have heq := List.find?_some he
    obtain rfl : e.1 = c := of_decide_eq_true heq
    obtain ⟨hmem, hunits⟩ := hshort e (List.mem_of_find?_eq_some he)
    rw [hunits]
    exact .escape hmem .nil
  · rename_i hnone
    have hne (e : Char × Char) (he : e ∈ shortEscapes) : c ≠ e.1 := fun heq =>
      List.find?_eq_none.1 hnone e he (decide_eq_true heq.symm)
    split_ifs with hprint
    · have hbody := Body.plain (hne ('"', '"') (by decide)) (hne ('\\', '\\') (by decide)) hprint.1
        Body.nil
      rwa [List.append_nil] at hbody
    · have hunits : ∀ us : List ℕ, (∀ u ∈ us, u < 65536) →
          Body (us.flatMap fun u => '\\' :: 'u' :: hex4 u) us := by
        intro us hus
        induction us with
        | nil => exact .nil
        | cons u us ih =>
          obtain ⟨hu, hus⟩ := List.forall_mem_cons.1 hus
          exact (body_hex4 hu).append (ih hus)
      exact hunits _ fun u hu => lt_of_mem_utf16 hu

/-- **The escapes of a text are those of the grammar.** -/
theorem quote_body (cs : List Char) : Body (cs.flatMap quoteChar) (units cs) := by
  induction cs with
  | nil => exact .nil
  | cons c cs ih => exact (body_quoteChar c).append ih

theorem writes_quote (cs : List Char) : Writes (.value (.str (units cs))) (quote cs) :=
  .str (quote_body cs)

/-- A decimal numeral has no leading zero. -/
theorem isNumber_digits (n : ℕ) : (Nat.toDigits 10 n = ['0'] ∨ IsDigits (Nat.toDigits 10 n) ∧
    (Nat.toDigits 10 n).head? ≠ some '0') := by
  induction n using Nat.strong_induction_on with
  | h n ih =>
    have hdigits : IsDigits (Nat.toDigits 10 n) :=
      ⟨Nat.toDigits_ne_nil, fun c hc => Nat.isDigit_of_mem_toDigits (by decide) (by decide) hc⟩
    by_cases hn : n < 10
    · rw [Nat.toDigits_of_lt_base hn] at hdigits ⊢
      by_cases h0 : n.digitChar = '0'
      · exact .inl (by rw [h0])
      · exact .inr ⟨hdigits, by simpa using h0⟩
    · -- the first digit is that of the quotient
      have hquot : n / 10 ≠ 0 := by omega
      have hsplit : Nat.toDigits 10 n = Nat.toDigits 10 (n / 10) ++ [Nat.digitChar (n % 10)] :=
        Nat.toDigits_of_base_le (by decide) (by omega)
      refine .inr ⟨hdigits, ?_⟩
      rw [hsplit, List.head?_append]
      rcases ih (n / 10) (by omega) with h | ⟨-, h⟩
      · have hzero := congrArg (fun ds => Nat.ofDigitChars 10 ds 0) h
        rw [Nat.ofDigitChars_ten_toDigits] at hzero
        exact absurd hzero hquot
      · cases hhead : (Nat.toDigits 10 (n / 10)).head? with
        | none => simp at hhead
        | some c =>
          rw [hhead] at h
          simpa using h

theorem isNumber_toString (n : ℤ) : IsNumber (toString n).toList := by
  have hnat (n : ℕ) (sign : List Char) (h : sign ∈ [[], ['-']]) :
      IsNumber (sign ++ n.repr.toList) := by
    have hnumber := IsNumber.mk h (isNumber_digits n) (.inl rfl) (.inl rfl)
    rwa [List.append_nil, List.append_nil, ← Nat.toList_repr] at hnumber
  rw [Int.toString_eq_repr, Int.repr_eq_if]
  split_ifs
  · exact hnat n.toNat [] (by decide)
  · rw [String.toList_append]
    exact hnat (-n).toNat ['-'] (by decide)

end JsonText
