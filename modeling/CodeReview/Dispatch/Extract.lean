import CodeReview.Dispatch.Response
import CodeReview.Lib.Cut

/-!
# An object and its wrapping

Agents wrap the object that they are asked for in a code fence or in prose.  `_parse_json` cuts it
out again: the fences are stripped, then everything outside the outermost braces.

* `jsonText_of_wraps` : **the text that is loaded is the object's, however it was wrapped**;
* `parseJson_insensitive` : **so the wrapping makes no difference**, and whatever the text, the two
  exceptions of the runner are the only ones.
-/

namespace CodeReview

open Py

/-- The marker of a code fence. -/
def fence : List Char := "```".toList

/-- The text of an object: from an opening brace to a closing one, with anything in between. -/
structure ObjectText (s : List Char) : Prop where
  head : s.head? = some '\x7b'
  last : s.getLast? = some '\x7d'

/-- A text of whitespace. -/
def Blanks (cs : List Char) : Prop := ∀ c ∈ cs, Text.isSpace c = true

/-- A text without braces. -/
def BraceFree (cs : List Char) : Prop := '\x7b' ∉ cs ∧ '\x7d' ∉ cs

instance (cs : List Char) : Decidable (Blanks cs) :=
  decidable_of_iff (cs.all Text.isSpace = true) List.all_eq_true

instance (cs : List Char) : Decidable (BraceFree cs) :=
  inferInstanceAs (Decidable ('\x7b' ∉ cs ∧ '\x7d' ∉ cs))

/-- What an agent makes of the text of an object. -/
inductive Wraps (s : List Char) : List Char → Prop
  | bare : Wraps s s
  /-- In a closed code fence, with any language that has no brace in it. -/
  | fenced {language gap gap' after : List Char} : BraceFree language → Blanks gap → Blanks gap' →
      BraceFree after → Wraps s (fence ++ (language ++ gap) ++ s ++ (gap' ++ fence ++ after))
  /-- In prose that does not begin with a fence. -/
  | prose {before after : List Char} : BraceFree before → BraceFree after →
      ¬ fence <+: before.dropWhile Text.isSpace → Wraps s (before ++ s ++ after)

/-! ### Fences -/

theorem beforeLast_append {sep cs d : List Char} (h : beforeLast sep cs = some d)
    (before : List Char) : beforeLast sep (before ++ cs) = some (before ++ d) := by
  induction before with
  | nil => exact h
  | cons c before ih => simp only [List.cons_append, beforeLast, ih]

theorem prefix_of_beforeLast {sep cs d : List Char} (h : beforeLast sep cs = some d) :
    d <+: cs := by
  induction cs generalizing d with
  | nil => cases h
  | cons c cs ih =>
    rw [beforeLast] at h
    cases hcs : beforeLast sep cs with
    | some d' =>
      rw [hcs] at h
      obtain rfl := Option.some.inj h
      exact (List.prefix_cons_inj c).2 (ih hcs)
    | none =>
      rw [hcs] at h
      split_ifs at h
      obtain rfl := Option.some.inj h
      exact List.nil_prefix

theorem exists_beforeLast {sep cs : List Char} (hsep : sep ≠ []) (h : sep <+: cs) :
    ∃ d, beforeLast sep cs = some d := by
  cases cs with
  | nil => exact absurd (List.prefix_nil.1 h) hsep
  | cons c cs =>
    rw [beforeLast]
    cases beforeLast sep cs with
    | some d => exact ⟨_, rfl⟩
    | none => exact ⟨[], if_pos (List.isPrefixOf_iff_prefix.2 h)⟩

/-- An opening fence with its language is taken off, up to the object at most. -/
theorem afterFence_surrounded {s : List Char} (hs : ObjectText s) {before : List Char}
    (hbefore : '\x7b' ∉ before) (after : List Char) :
    ∃ rest, '\x7b' ∉ rest ∧ afterFence (fence ++ before ++ s ++ after) = rest ++ s ++ after := by
  have hopen : (fence ++ before ++ s ++ after).drop 3 = before ++ s ++ after := rfl
  have hdrop := Cut.dropWhile_surrounded (p := Char.isAlpha) hs.head (by decide) before after
  have hkept : '\x7b' ∉ before.dropWhile Char.isAlpha := fun h =>
    hbefore ((List.dropWhile_sublist _).subset h)
  obtain ⟨m, hm⟩ := List.head?_eq_some_iff.1 hs.head
  rw [afterFence, hopen, hdrop]
  cases hlanguage : before.dropWhile Char.isAlpha with
  | nil => exact ⟨[], List.not_mem_nil, by rw [hm]; rfl⟩
  | cons c rest =>
    rw [hlanguage] at hkept
    by_cases hc : c = '\n'
    · subst hc
      exact ⟨rest, fun h => hkept (List.mem_cons_of_mem _ h), rfl⟩
    · refine ⟨c :: rest, hkept, ?_⟩
      simp only [List.cons_append]
      split
      · rename_i heq
        exact absurd (List.cons.inj heq).1 hc
      · rfl

/-! ### The object -/

theorem toList_strip (text : String) : (Text.strip text).toList =
    (text.toList.dropWhile Text.isSpace).rdropWhile Text.isSpace := by
  rw [Text.strip, String.toList_ofList]
  rfl

/-- The outermost braces are those of the object. -/
theorem outerBraces_surrounded {s : List Char} (hs : ObjectText s) {before after : List Char}
    (hbefore : '\x7b' ∉ before) (hafter : '\x7d' ∉ after) :
    outerBraces (before ++ s ++ after) = s := by
  have hclosed : '\x7d' ∈ (before ++ s ++ after).dropWhile (· ≠ '\x7b') := by
    rw [Cut.dropWhile_surrounded hs.head (by decide)]
    exact List.mem_append_left _ (List.mem_append_right _ (List.mem_of_getLast? hs.last))
  rw [outerBraces, if_pos hclosed]
  refine Cut.trim_eq hs.head hs.last (by decide) (by decide) ?_ ?_
  · intro c hc
    exact decide_eq_true fun heq => hbefore (heq ▸ hc)
  · intro c hc
    exact decide_eq_true fun heq => hafter (heq ▸ hc)

/-- Stripping a text leaves the object in it alone. -/
theorem strip_surrounded {s : List Char} (hs : ObjectText s) {text : String}
    {before after : List Char} (htext : text.toList = before ++ s ++ after) :
    (Text.strip text).toList =
      before.dropWhile Text.isSpace ++ s ++ after.rdropWhile Text.isSpace := by
  rw [toList_strip, htext]
  exact Cut.trim_surrounded hs.head hs.last (by decide) (by decide) before after

theorem unfence_of_fence {cs : List Char} (h : fence <+: cs) :
    unfence cs = (beforeLast fence (afterFence cs)).getD (afterFence cs) :=
  if_pos (List.isPrefixOf_iff_prefix.2 h)

/-- A text that does not begin with a fence is left as it is. -/
theorem unfence_surrounded {s : List Char} (hs : ObjectText s) {before : List Char}
    (hbefore : ¬ fence <+: before) (after : List Char) :
    unfence (before ++ s ++ after) = before ++ s ++ after := by
  obtain ⟨m, hm⟩ := List.head?_eq_some_iff.1 hs.head
  refine if_neg ?_
  rw [List.isPrefixOf_iff_prefix, hm, List.append_assoc, List.cons_append]
  exact fun hfence => hbefore (Cut.prefix_of_notMem hfence (by decide))

/-- A fence is not trimmed off. -/
theorem rdropWhile_fence (before after : List Char) :
    (before ++ fence ++ after).rdropWhile Text.isSpace =
      before ++ fence ++ after.rdropWhile Text.isSpace := by
  have hlast : fence.getLast? = some '\x60' := by decide
  exact Cut.rdropWhile_surrounded hlast (by decide) before after

/-- A closed fence is taken off, with what follows it. -/
theorem unfence_fenced {s : List Char} (hs : ObjectText s) {before : List Char}
    (hbefore : '\x7b' ∉ before) {between after : List Char} (hbetween : '\x7d' ∉ between)
    (hafter : '\x7d' ∉ after) : ∃ rest rest', '\x7b' ∉ rest ∧ '\x7d' ∉ rest' ∧
      unfence (fence ++ before ++ s ++ (between ++ fence ++ after)) = rest ++ s ++ rest' := by
  obtain ⟨rest, hrest, hopened⟩ := afterFence_surrounded hs hbefore (between ++ fence ++ after)
  obtain ⟨d, hd⟩ := exists_beforeLast (by decide) (List.prefix_append fence after)
  have hcut := beforeLast_append hd (rest ++ s ++ between)
  have hclosed : beforeLast fence (rest ++ s ++ (between ++ fence ++ after)) =
      some (rest ++ s ++ (between ++ d)) := by
    simpa [List.append_assoc] using hcut
  refine ⟨rest, between ++ d, hrest, ?_, ?_⟩
  · -- what is kept of the closing fence is a part of it and of what follows
    have hnone : '\x7d' ∉ fence ++ after := by simpa [fence] using hafter
    rw [List.mem_append, not_or]
    exact ⟨hbetween, fun h => hnone ((prefix_of_beforeLast hd).subset h)⟩
  · have hprefix : fence <+: fence ++ before ++ s ++ (between ++ fence ++ after) := by
      rw [List.append_assoc, List.append_assoc]
      exact List.prefix_append ..
    rw [unfence_of_fence hprefix, hopened, hclosed, Option.getD_some]

/-! ### Every wrapping -/

theorem BraceFree.append {cs ds : List Char} (hcs : BraceFree cs) (hds : BraceFree ds) :
    BraceFree (cs ++ ds) := by
  refine ⟨?_, ?_⟩
  · rw [List.mem_append, not_or]
    exact ⟨hcs.1, hds.1⟩
  · rw [List.mem_append, not_or]
    exact ⟨hcs.2, hds.2⟩

theorem Blanks.braceFree {cs : List Char} (h : Blanks cs) : BraceFree cs := by
  refine ⟨fun hmem => ?_, fun hmem => ?_⟩
  · exact absurd (h _ hmem) (by decide)
  · exact absurd (h _ hmem) (by decide)

/-- **Whatever the wrapping, the text that is loaded is the object's.** -/
theorem jsonText_of_wraps {s w before after : List Char} (hs : ObjectText s) (hw : Wraps s w)
    (hbefore : Blanks before) (hafter : Blanks after) {text : String}
    (htext : text.toList = before ++ w ++ after) : jsonText text = String.ofList s := by
  have hskip (cs : List Char) : (before ++ cs).dropWhile Text.isSpace = cs.dropWhile Text.isSpace :=
    List.dropWhile_append_of_pos hbefore
  suffices hcut : outerBraces (unfence (Text.strip text).toList) = s by rw [jsonText, hcut]
  cases hw with
  | bare =>
    have hclean : (Text.strip text).toList = [] ++ s ++ [] := by
      rw [strip_surrounded hs htext, List.dropWhile_eq_nil_iff.2 hbefore,
        List.rdropWhile_eq_nil_iff.2 hafter]
    rw [hclean, unfence_surrounded hs (by decide)]
    exact outerBraces_surrounded hs List.not_mem_nil List.not_mem_nil
  | @fenced language gap gap' rest hlanguage hgap hgap' hrest =>
    have hparts : text.toList =
        before ++ (fence ++ (language ++ gap)) ++ s ++ (gap' ++ fence ++ (rest ++ after)) := by
      simpa [List.append_assoc] using htext
    have hclean : (Text.strip text).toList = fence ++ (language ++ gap) ++ s ++
        (gap' ++ fence ++ (rest ++ after).rdropWhile Text.isSpace) := by
      rw [strip_surrounded hs hparts, hskip,
        rdropWhile_fence]
      rfl
    have hend : '\x7d' ∉ (rest ++ after).rdropWhile Text.isSpace := fun h =>
      (hrest.append hafter.braceFree).2 ((List.rdropWhile_prefix _ _).subset h)
    obtain ⟨x, y, hx, hy, hunfenced⟩ := unfence_fenced hs (hlanguage.append hgap.braceFree).1
      hgap'.braceFree.2 hend
    rw [hclean, hunfenced]
    exact outerBraces_surrounded hs hx hy
  | @prose before' after' hbefore' hafter' hfence =>
    have hparts : text.toList = before ++ before' ++ s ++ (after' ++ after) := by
      simpa [List.append_assoc] using htext
    rw [strip_surrounded hs hparts, hskip, unfence_surrounded hs hfence]
    refine outerBraces_surrounded hs ?_ ?_
    · exact fun h => hbefore'.1 ((List.dropWhile_sublist _).subset h)
    · exact fun h => (hafter'.append hafter.braceFree).2 ((List.rdropWhile_prefix _ _).subset h)

/-- The text is parsed as `json.loads` reads the object: to its dictionary, or any other value that
it may be taken for, and to an error where it cannot be read. -/
structure ParsedAs (rt : Runtime) (json : JsonLoads) (s text : String) : Prop where
  object : ∀ obj, json.load s = some (.dict obj) → parseJson rt json text = .ok obj
  value : ∀ v, json.load s = some v → parseJson rt json text = .ok (responseObject v)
  unread : json.load s = none → ∃ e, parseJson rt json text = .error e

theorem parsedAs_of_jsonText {rt : Runtime} {json : JsonLoads} {s text : String}
    (hstrip : Text.strip text ≠ "") (h : jsonText text = s) : ParsedAs rt json s text := by
  refine ⟨?_, ?_, ?_⟩
  · intro obj hload
    rw [parseJson, if_neg hstrip, h, hload]
    rfl
  · intro v hload
    rw [parseJson, if_neg hstrip, h, hload]
  · intro hload
    rw [parseJson, if_neg hstrip, h, hload]
    exact ⟨_, rfl⟩

/-- **An object is read alike bare, in a fence and in prose, and nothing but the two exceptions of
the runner is raised.** -/
theorem parseJson_insensitive (rt : Runtime) (json : JsonLoads) :
    (∀ s w before after : List Char, ObjectText s → Wraps s w → Blanks before → Blanks after →
      ParsedAs rt json (String.ofList s) (String.ofList (before ++ w ++ after))) ∧
    ∀ text e, parseJson rt json text = .error e → e = .rateLimit ∨ e = .contextOverflow := by
  refine ⟨?_, fun text e h => parseJson_error h⟩
  intro s w before after hs hw hbefore hafter
  have hjson := jsonText_of_wraps hs hw hbefore hafter String.toList_ofList
  refine parsedAs_of_jsonText ?_ hjson
  intro hempty
  -- an empty text has no braces to cut at
  have hnil : jsonText (String.ofList (before ++ w ++ after)) = "" := by
    rw [jsonText, hempty]
    rfl
  rw [hjson] at hnil
  rw [String.ofList_eq_empty_iff.1 hnil] at hs
  cases hs.head

/-- A reader of the empty object alone. -/
def emptyObjectLoads : JsonLoads where
  load text := if text = "\x7b\x7d" then some (.dict []) else none
  nodup h := by
    split_ifs at h
    obtain rfl := Value.dict.inj (Option.some.inj h)
    exact List.nodup_nil

/-- The theorem applied to a fenced object. -/
theorem parseJson_insensitive_fenced :
    parseJson .ascii emptyObjectLoads " ```json\n\x7b\x7d\n```\n" = .ok [] := by
  have hwraps : Wraps ['\x7b', '\x7d'] "```json\n\x7b\x7d\n```".toList :=
    @Wraps.fenced ['\x7b', '\x7d'] "json".toList ['\n'] ['\n'] [] (by decide) (by decide)
      (by decide)
      (by decide)
  exact ((parseJson_insensitive .ascii emptyObjectLoads).1 _ _ [' '] ['\n'] ⟨rfl, rfl⟩ hwraps
    (by decide) (by decide)).object [] rfl

end CodeReview
