import CodeReview.Handlers.OrderFree
import CodeReview.Lib.Joined
import CodeReview.Py.Printing

/-!
# The key of exact deduplication

`_dedup_key` joins file, line and normalised title with `::`, which may also stand in a file name or
in a title.

* `dedupKey_identifies_iff` : **the key identifies the place of two findings exactly when neither
  key can be cut into the fields of the other finding.**
* `mem_reporters_iff_samePlace` : among findings whose keys do, the reporters under a key are those
  of one place.
-/

namespace CodeReview

open Py Joined

variable (rt : Runtime)

/-- The line of a finding, as its key has it. -/
def lineText (finding : Dict) : String :=
  match finding.get "line" with
  | .none => ""
  | v => rt.str v

/-- The three fields of a key. -/
def keyFields (finding : Dict) : Fields Char where
  first := (rt.str ((finding.get "file").or (.str ""))).toList
  middle := (lineText rt finding).toList
  last := (normaliseTitle rt (finding.get "title")).toList

/-- A finding with a file and a title, and with a line or none. -/
structure Placed (finding : Dict) : Prop where
  file : ∃ s, finding.get "file" = .str s
  line : finding.get "line" = .none ∨ ∃ n, finding.get "line" = .int n
  title : ∃ s, finding.get "title" = .str s

/-- The same file, the same line and the same normalised title. -/
def SamePlace (f g : Dict) : Prop :=
  f.get "file" = g.get "file" ∧ f.get "line" = g.get "line" ∧
    normaliseTitle rt (f.get "title") = normaliseTitle rt (g.get "title")

variable {rt}

/-! ### The fields -/

theorem toList_dedupKey (f : Dict) : (dedupKey rt f).toList = (keyFields rt f).text ':' := by
  have hkey : dedupKey rt f = rt.str ((f.get "file").or (.str "")) ++ "::" ++ lineText rt f ++
      "::" ++ normaliseTitle rt (f.get "title") := rfl
  rw [hkey]
  simp [Fields.text, keyFields]

/-- The text of an integer has no colon. -/
theorem colon_notMem_toString (n : ℤ) : ':' ∉ (toString n).toList := by
  intro h
  rcases Text.mem_toString h with hdigit | hsign
  · exact absurd hdigit (by decide)
  · exact absurd hsign (by decide)

theorem toString_ne_empty (n : ℤ) : toString n ≠ "" := by
  intro h
  have hlist := congrArg String.toList h
  rw [Int.toString_eq_repr, Int.repr_eq_if] at hlist
  split_ifs at hlist
  · rw [Nat.toList_repr] at hlist
    exact Nat.toDigits_ne_nil hlist
  · rw [String.toList_append] at hlist
    exact absurd (List.append_eq_nil_iff.1 hlist).1 (by decide)

/-- Integers with one text are one. -/
theorem toString_injective {m n : ℤ} (h : toString m = toString n) : m = n := by
  have hnat {m n : ℕ} (h : m.repr = n.repr) : m = n := by
    have hdigits := congrArg (fun s => Nat.ofDigitChars 10 s.toList 0) h
    simpa [Nat.toList_repr] using hdigits
  -- a sign is no digit
  have hsign (m n : ℕ) : m.repr ≠ "-" ++ n.repr := by
    intro heq
    have hmem : '-' ∈ m.repr.toList := by rw [heq, String.toList_append]; exact .head _
    exact absurd (Text.isDigit_of_mem_repr hmem) (by decide)
  rw [Int.toString_eq_repr, Int.toString_eq_repr, Int.repr_eq_if, Int.repr_eq_if] at h
  split_ifs at h with hm hn hn
  · have := hnat h
    omega
  · exact absurd h (hsign _ _)
  · exact absurd h.symm (hsign _ _)
  · have := hnat (String.append_right_inj _ |>.1 h)
    omega

theorem Placed.colon_notMem {f : Dict} (h : Placed f) : ':' ∉ (keyFields rt f).middle := by
  rcases h.line with hline | ⟨n, hline⟩
  · simp [keyFields, lineText, hline]
  · simpa [keyFields, lineText, hline, Runtime.str] using colon_notMem_toString n

theorem lineText_eq_iff {f g : Dict} (hf : Placed f) (hg : Placed g) :
    lineText rt f = lineText rt g ↔ f.get "line" = g.get "line" := by
  rcases hf.line with hline | ⟨m, hline⟩
  · rcases hg.line with hline' | ⟨n, hline'⟩
    · simp [lineText, hline, hline']
    · simpa [lineText, hline, hline', Runtime.str] using (toString_ne_empty n).symm
  · rcases hg.line with hline' | ⟨n, hline'⟩
    · simpa [lineText, hline, hline', Runtime.str] using toString_ne_empty m
    · simp only [lineText, hline, hline', Runtime.str, Value.int.injEq]
      exact ⟨toString_injective, fun h => h ▸ rfl⟩

/-- The fields of two keys are equal exactly when the findings are at one place. -/
theorem keyFields_eq_iff {f g : Dict} (hf : Placed f) (hg : Placed g) :
    keyFields rt f = keyFields rt g ↔ SamePlace rt f g := by
  obtain ⟨s, hs⟩ := hf.file
  obtain ⟨t, ht⟩ := hg.file
  rw [keyFields, keyFields, Fields.mk.injEq, String.toList_inj, String.toList_inj,
    String.toList_inj, lineText_eq_iff hf hg, hs, ht, or_empty, or_empty, SamePlace, hs, ht,
    Value.str.injEq]
  rfl

/-! ### The key -/

/-- **When the key identifies the place of a finding.** -/
theorem dedupKey_identifies_iff (rt : Runtime) {f g : Dict} (hf : Placed f) (hg : Placed g) :
    (dedupKey rt f = dedupKey rt g ↔ SamePlace rt f g) ↔
      ¬ Recut ':' (keyFields rt f) (keyFields rt g) ∧
        ¬ Recut ':' (keyFields rt g) (keyFields rt f) := by
  have hkeys : dedupKey rt f = dedupKey rt g ↔ SamePlace rt f g ∨
      Recut ':' (keyFields rt f) (keyFields rt g) ∨
        Recut ':' (keyFields rt g) (keyFields rt f) := by
    rw [← String.toList_inj, toList_dedupKey, toList_dedupKey,
      text_eq_iff hf.colon_notMem hg.colon_notMem, keyFields_eq_iff hf hg]
  rw [hkeys, ← not_or]
  constructor
  · intro h hrecut
    have heq := (keyFields_eq_iff hf hg).2 (h.1 (.inr hrecut))
    -- a cut at a later place has a longer file
    rcases hrecut with hrecut | hrecut
    · exact absurd hrecut.length_lt (by rw [heq]; exact lt_irrefl _)
    · exact absurd hrecut.length_lt (by rw [heq]; exact lt_irrefl _)
  · intro h
    exact ⟨fun hsame => hsame.resolve_right h, .inl⟩

/-- **Where keys identify places, the reporters under a key are those of one place.** -/
theorem mem_reporters_iff_samePlace {rs : List (Value × Dict)} {f : Dict} (hf : Placed f)
    (hrs : ∀ r ∈ rs, Placed r.2 ∧ ¬ Recut ':' (keyFields rt r.2) (keyFields rt f) ∧
      ¬ Recut ':' (keyFields rt f) (keyFields rt r.2)) {s : String} :
    s ∈ reporters rt rs (dedupKey rt f) ↔ ∃ g, (.str s, g) ∈ rs ∧ SamePlace rt g f := by
  rw [mem_reporters]
  refine exists_congr fun g => and_congr_right ?_
  intro hg
  obtain ⟨hplaced, hcut⟩ := hrs _ hg
  exact (dedupKey_identifies_iff rt hplaced hf).2 hcut

/-- A finding with a title at a line of a file. -/
def placedFinding (file : String) (line : ℤ) (title : String) : Dict :=
  [("file", .str file), ("line", .int line), ("title", .str title)]

theorem placed_placedFinding (file : String) (line : ℤ) (title : String) :
    Placed (placedFinding file line title) := ⟨⟨_, rfl⟩, .inr ⟨_, rfl⟩, ⟨_, rfl⟩⟩

theorem first_placedFinding (file : String) (line : ℤ) (title : String) :
    (keyFields rt (placedFinding file line title)).first = file.toList := by
  change (rt.str ((Value.str file).or (.str ""))).toList = _
  rw [or_empty]
  rfl

/-- The theorem applied to two lines of a file. -/
theorem dedupKey_identifies_iff_twoLines :
    (dedupKey .ascii (placedFinding "a" 1 "t") = dedupKey .ascii (placedFinding "a" 2 "t") ↔
      SamePlace .ascii (placedFinding "a" 1 "t") (placedFinding "a" 2 "t")) := by
  refine (dedupKey_identifies_iff .ascii (placed_placedFinding ..) (placed_placedFinding ..)).2 ?_
  refine ⟨?_, ?_⟩
  · intro h
    have hlt := h.length_lt
    rw [first_placedFinding, first_placedFinding] at hlt
    exact lt_irrefl _ hlt
  · intro h
    have hlt := h.length_lt
    rw [first_placedFinding, first_placedFinding] at hlt
    exact lt_irrefl _ hlt

/-- **Findings in two files have one key.** -/
theorem twoFiles_oneKey :
    Placed (placedFinding "a" 1 "2::b") ∧ Placed (placedFinding "a::1" 2 "b") ∧
    ¬ (dedupKey .ascii (placedFinding "a" 1 "2::b") = dedupKey .ascii (placedFinding "a::1" 2 "b") ↔
      SamePlace .ascii (placedFinding "a" 1 "2::b") (placedFinding "a::1" 2 "b")) := by
  refine ⟨placed_placedFinding .., placed_placedFinding .., ?_⟩
  intro h
  have htitle : (normaliseTitle .ascii (.str "2::b")).toList = ['2', ':', ':', 'b'] := by decide
  have htitle' : (normaliseTitle .ascii (.str "b")).toList = ['b'] := by decide
  -- the second file swallows the line of the first finding
  have hrecut : Recut ':' (keyFields .ascii (placedFinding "a" 1 "2::b"))
      (keyFields .ascii (placedFinding "a::1" 2 "b")) := by
    refine .middle ?_ ?_
    · rw [first_placedFinding, first_placedFinding]
      decide
    · change (normaliseTitle .ascii (.str "2::b")).toList =
        "2".toList ++ ':' :: ':' :: (normaliseTitle .ascii (.str "b")).toList
      rw [htitle, htitle']
      decide
  have hkey : dedupKey .ascii (placedFinding "a" 1 "2::b") =
      dedupKey .ascii (placedFinding "a::1" 2 "b") := by
    rw [← String.toList_inj, toList_dedupKey, toList_dedupKey]
    exact hrecut.text_eq
  exact absurd (Value.str.inj (h.1 hkey).1) (by decide)

end CodeReview
