import Mathlib.Data.List.Pairwise
import Mathlib.Data.List.Perm.Basic
import Stylesheet.Entries

/-!
# Comparisons under which equals can be exchanged

A comparison of containers asks the comparison of what they contain. To show that it is symmetric
and transitive, one property is carried from the parts to the whole: whatever equals `a` equals it
in turn, and can take its place in every further comparison (`Exchanges`). Symmetry and
transitivity are two halves of it, and neither half can be carried up alone, because finding an
entry of a map needs both.

* **Lists** are compared place by place (`Exchanges.isEqv`).
* **Entries** are compared in any order: equally many, and every key of the left is found on the
  right with an equal value (`Entries.beqBy`). This test looks in one direction only. For keys
  that are pairwise unequal it finds a matching in which every entry has exactly one partner
  (`Entries.beqBy_iff_matched`), and a matching can be turned round and composed, so entries can
  be exchanged as a whole (`Entries.exchanges_beqBy`).
-/

namespace Stylesheet

variable {α κ : Type}

/-- Whatever equals `a` equals it in turn and takes its place in every comparison, among the
values that satisfy `p`. -/
def Exchanges (eq : α → α → Bool) (p : α → Prop) (a : α) : Prop :=
  ∀ b, p b → eq a b = true → eq b a = true ∧ ∀ c, p c → eq b c = eq a c

namespace Exchanges

variable {eq : α → α → Bool} {p q : α → Prop} {a b : α}

theorem mono (h : Exchanges eq q a) (hpq : ∀ x, p x → q x) : Exchanges eq p a := fun b hb hab =>
  ⟨(h b (hpq b hb) hab).1, fun c hc => (h b (hpq b hb) hab).2 c (hpq c hc)⟩

/-- A comparison of keys exchanges everything. -/
theorem of_key {γ : Type} (key : α → γ) (h : ∀ x y, eq x y = true ↔ key x = key y) (a : α) :
    Exchanges eq p a := by
  intro b _ hab
  have hkey := (h a b).1 hab
  refine ⟨(h b a).2 hkey.symm, fun c _ => ?_⟩
  rw [Bool.eq_iff_iff, h, h, hkey]

/-- Values compared by what a function makes of them. -/
theorem comap {γ : Type} {f : γ → α} {x : γ} (h : Exchanges eq p (f x)) :
    Exchanges (fun y z => eq (f y) (f z)) (fun y => p (f y)) x := fun y hy hxy =>
  ⟨(h (f y) hy hxy).1, fun z hz => (h (f y) hy hxy).2 (f z) hz⟩

/-- Two comparisons, both of which have to hold. -/
theorem and {eq' : α → α → Bool} (h : Exchanges eq p a) (h' : Exchanges eq' p a) :
    Exchanges (fun x y => eq x y && eq' x y) p a := by
  intro b hb hab
  obtain ⟨h₁, h₂⟩ := Bool.and_eq_true_iff.1 hab
  obtain ⟨hba, hsame⟩ := h b hb h₁
  obtain ⟨hba', hsame'⟩ := h' b hb h₂
  refine ⟨Bool.and_eq_true_iff.2 ⟨hba, hba'⟩, fun c hc => ?_⟩
  show (eq b c && eq' b c) = (eq a c && eq' a c)
  rw [hsame c hc, hsame' c hc]

/-- Values of one kind among others, where only the same kind compares equal. -/
theorem wrap {γ : Type} {eq' : γ → γ → Bool} {q : γ → Prop} {f : γ → α} {x : γ}
    (hsame : ∀ y z, eq (f y) (f z) = eq' y z)
    (hother : ∀ y b, eq (f y) b = true → ∃ z, b = f z) (hpq : ∀ y, p (f y) → q y)
    (h : Exchanges eq' q x) : Exchanges eq p (f x) := by
  intro b hb hab
  obtain ⟨y, rfl⟩ := hother x b hab
  obtain ⟨hyx, hswap⟩ := h y (hpq y hb) ((hsame x y).symm.trans hab)
  refine ⟨(hsame y x).trans hyx, fun c hc => ?_⟩
  rw [Bool.eq_iff_iff]
  constructor
  · intro hyc
    obtain ⟨z, rfl⟩ := hother y c hyc
    rw [hsame, ← hswap z (hpq z hc), ← hsame]
    exact hyc
  · intro hxc
    obtain ⟨z, rfl⟩ := hother x c hxc
    rw [hsame, hswap z (hpq z hc), ← hsame]
    exact hxc

/-- What can be exchanged hands this on to its equals. -/
theorem of_eq (h : Exchanges eq p a) (hb : p b) (hab : eq a b = true) : Exchanges eq p b := by
  obtain ⟨-, hsame⟩ := h b hb hab
  intro c hc hbc
  have hac : eq a c = true := (hsame c hc).symm.trans hbc
  obtain ⟨-, hsame'⟩ := h c hc hac
  exact ⟨(hsame' b hb).trans hab, fun d hd => (hsame' d hd).trans (hsame d hd).symm⟩

/-- Two values that equal a third are equal. -/
theorem eq_of_common (ha : Exchanges eq p a) (hb : Exchanges eq p b) (hpb : p b) {c : α}
    (hc : p c) (hac : eq a c = true) (hbc : eq b c = true) : eq a b = true :=
  ((ha c hc hac).2 b hpb).symm.trans (hb c hc hbc).1

/-! ## Lists -/

/-- Lists are compared place by place. -/
theorem isEqv {as : List α} (h : ∀ a ∈ as, Exchanges eq p a) :
    Exchanges (fun as bs => as.isEqv bs eq) (fun bs => ∀ b ∈ bs, p b) as := by
  induction as with
  | nil =>
    intro bs _ hbs
    cases bs with
    | nil => exact ⟨rfl, fun _ _ => rfl⟩
    | cons b bs => cases hbs
  | cons a as ih =>
    intro bs hp hbs
    cases bs with
    | nil => cases hbs
    | cons b bs =>
      obtain ⟨hab, has⟩ := Bool.and_eq_true_iff.1 hbs
      obtain ⟨hba, hsame⟩ := h a List.mem_cons_self b (hp b List.mem_cons_self) hab
      obtain ⟨hbas, hsames⟩ := ih (fun x hx => h x (List.mem_cons_of_mem a hx)) bs
        (fun x hx => hp x (List.mem_cons_of_mem b hx)) has
      refine ⟨Bool.and_eq_true_iff.2 ⟨hba, hbas⟩, fun cs hc => ?_⟩
      cases cs with
      | nil => rfl
      | cons c cs =>
        show (eq b c && bs.isEqv cs eq) = (eq a c && as.isEqv cs eq)
        rw [hsame c (hc c List.mem_cons_self)]
        exact congrArg _ (hsames cs fun x hx => hc x (List.mem_cons_of_mem c hx))

end Exchanges

/-! ## Entries in any order -/

theorem isEqv_iff_forall₂ {eq : α → α → Bool} {as bs : List α} :
    as.isEqv bs eq = true ↔ List.Forall₂ (fun a b => eq a b = true) as bs := by
  induction as generalizing bs with
  | nil => cases bs <;> simp
  | cons a as ih => cases bs <;> simp [List.isEqv, ih]

/-- Lists that are equal place by place give one list, where equals give the same. -/
theorem map_eq_of_isEqv {γ : Type} {eq : α → α → Bool} {as bs : List α} {f : α → γ}
    (h : as.isEqv bs eq = true) (hf : ∀ x ∈ as, ∀ y ∈ bs, eq x y = true → f x = f y) :
    as.map f = bs.map f := by
  rw [isEqv_iff_forall₂] at h
  refine List.ext_getElem (by simpa using h.length_eq) fun i hi hi' => ?_
  rw [List.length_map] at hi hi'
  rw [List.getElem_map, List.getElem_map]
  exact hf _ (List.getElem_mem hi) _ (List.getElem_mem hi') (h.get hi hi')

namespace Entries

/-- Whether two lists of entries are equal in any order: equally many, and each key of the first
is found in the second with an equal value. -/
def beqBy (test : κ → κ → Bool) (eq : α → α → Bool) (as bs : List (κ × α)) : Bool :=
  as.length == bs.length && as.all fun e => (find? (test e.1) bs).any (eq e.2)

/-- The keys are pairwise unequal. -/
def Apart (test : κ → κ → Bool) (as : List (κ × α)) : Prop :=
  as.Pairwise fun e f => test e.1 f.1 = false

/-- Entries are compared by key and value. -/
def entryBeq (test : κ → κ → Bool) (eq : α → α → Bool) (e f : κ × α) : Bool :=
  test e.1 f.1 && eq e.2 f.2

/-- Some order of the second list puts equal entries in equal places. -/
def Matched (test : κ → κ → Bool) (eq : α → α → Bool) (as bs : List (κ × α)) : Prop :=
  ∃ cs, cs.Perm bs ∧ as.isEqv cs (entryBeq test eq) = true

variable {test : κ → κ → Bool} {eq : α → α → Bool} {pK : κ → Prop} {pV : α → Prop}
  {as bs cs : List (κ × α)}

theorem find?_eq_some {t : κ → Bool} {v : α} (h : find? t bs = some v) :
    ∃ l e r, bs = l ++ e :: r ∧ t e.1 = true ∧ e.2 = v ∧ ∀ x ∈ l, t x.1 = false := by
  obtain ⟨e, he, hev⟩ := Option.map_eq_some_iff.1 h
  obtain ⟨ht, l, r, hbs, hl⟩ := List.find?_eq_some_iff_append.1 he
  exact ⟨l, e, r, hbs, ht, hev, fun x hx => by simpa using hl x hx⟩

theorem find?_congr {t t' : κ → Bool} {bs : List (κ × α)}
    (h : ∀ e ∈ bs, t e.1 = t' e.1) : find? t bs = find? t' bs := by
  induction bs with
  | nil => rfl
  | cons e rest ih =>
    have hrest : find? t rest = find? t' rest := ih fun f hf => h f (List.mem_cons_of_mem e hf)
    unfold find? at hrest ⊢
    rw [List.find?_cons, List.find?_cons, h e List.mem_cons_self]
    cases t' e.1 with
    | true => rfl
    | false => exact hrest

theorem mem_of_find?_eq_some {t : κ → Bool} {bs : List (κ × α)} {v : α}
    (h : find? t bs = some v) : ∃ f ∈ bs, t f.1 = true ∧ f.2 = v := by
  obtain ⟨l, f, r, rfl, hf, hv, -⟩ := find?_eq_some h
  exact ⟨f, by simp, hf, hv⟩

theorem find?_append_cons {t : κ → Bool} {e : κ × α} (h : t e.1 = false) (l r : List (κ × α)) :
    find? t (l ++ e :: r) = find? t (l ++ r) := by
  simp [find?, List.find?_append, h]

/-- Keys that no entry has in common with another key find partners of their own. -/
theorem exists_perm_of_all_found
    (hdisjoint : as.Pairwise fun e f => ∀ g ∈ bs, test e.1 g.1 = true → test f.1 g.1 = false)
    (hfound : ∀ e ∈ as, (find? (test e.1) bs).any (eq e.2) = true) :
    ∃ cs rest, (cs ++ rest).Perm bs ∧
      as.isEqv cs (entryBeq test eq) = true := by
  induction as generalizing bs with
  | nil => exact ⟨[], bs, .refl _, rfl⟩
  | cons e as ih =>
    rw [List.pairwise_cons] at hdisjoint
    obtain ⟨v, hv, hev⟩ := (Option.any_eq_true _ _).1 (hfound e List.mem_cons_self)
    obtain ⟨l, g, r, rfl, hg, rfl, -⟩ := find?_eq_some hv
    -- The other keys do not match `g`, so they find the same values when it is taken out.
    have hrest : ∀ f ∈ as, (find? (test f.1) (l ++ r)).any (eq f.2) = true := fun f hf => by
      rw [← find?_append_cons (hdisjoint.1 f hf g (by simp) hg)]
      exact hfound f (List.mem_cons_of_mem e hf)
    have hsub : ∀ x ∈ l ++ r, x ∈ l ++ g :: r := fun x hx => by
      rcases List.mem_append.1 hx with hx | hx <;> simp [hx]
    obtain ⟨cs, rest, hperm, heq⟩ :=
      ih (hdisjoint.2.imp fun h x hx => h x (hsub x hx)) hrest
    refine ⟨g :: cs, rest, (hperm.cons g).trans List.perm_middle.symm, ?_⟩
    exact Bool.and_eq_true_iff.2 ⟨Bool.and_eq_true_iff.2 ⟨hg, hev⟩, heq⟩

/-- Where no key matches two entries, a matched entry is the one that is found. -/
theorem all_found_of_matched
    (hunique : ∀ e ∈ as, ∀ f ∈ bs, ∀ g ∈ bs, test e.1 f.1 = true → test e.1 g.1 = true → f = g)
    (h : Matched test eq as bs) : ∀ e ∈ as, (find? (test e.1) bs).any (eq e.2) = true := by
  obtain ⟨cs, hperm, heq⟩ := h
  rw [isEqv_iff_forall₂] at heq
  intro e he
  obtain ⟨i, hi, rfl⟩ := List.mem_iff_getElem.1 he
  have hci : i < cs.length := heq.length_eq ▸ hi
  obtain ⟨htest, hval⟩ := Bool.and_eq_true_iff.1 (heq.get hi hci)
  have hmem : cs[i] ∈ bs := hperm.mem_iff.1 (List.getElem_mem hci)
  cases hfind : find? (test as[i].1) bs with
  | none =>
    have hnone := List.find?_eq_none.1 (Option.map_eq_none_iff.1 hfind) _ hmem
    exact absurd htest hnone
  | some v =>
    obtain ⟨l, g, r, hbs, hg, rfl, -⟩ := find?_eq_some hfind
    have hgmem : g ∈ bs := by simp [hbs]
    obtain rfl := hunique _ he _ hgmem _ hmem hg htest
    exact hval

theorem Matched.length_eq (h : Matched test eq as bs) : as.length = bs.length := by
  obtain ⟨cs, hperm, heq⟩ := h
  exact (isEqv_iff_forall₂.1 heq).length_eq.trans hperm.length_eq

theorem Apart.eq_of_test (h : Apart test bs) {f g : κ × α} (hf : f ∈ bs) (hg : g ∈ bs)
    (hfg : test f.1 g.1 = true) (hgf : test g.1 f.1 = true) : f = g := by
  by_contra hne
  have : Std.Symm fun f g : κ × α => ¬ (test f.1 g.1 = true ∧ test g.1 f.1 = true) :=
    ⟨fun _ _ h hc => h hc.symm⟩
  have hpair : bs.Pairwise fun f g => ¬ (test f.1 g.1 = true ∧ test g.1 f.1 = true) :=
    h.imp fun hne hc => by simp [hne] at hc
  exact hpair.forall hf hg hne ⟨hfg, hgf⟩

/-- Two keys that find one entry would equal each other, so unequal keys find different ones. -/
theorem Apart.disjoint (hK : ∀ e ∈ as, Exchanges test pK e.1) (has : ∀ e ∈ as, pK e.1)
    (hbs : ∀ e ∈ bs, pK e.1) (hapart : Apart test as) :
    as.Pairwise fun e f => ∀ g ∈ bs, test e.1 g.1 = true → test f.1 g.1 = false := by
  refine List.pairwise_iff_forall_sublist.2 fun {e f} hsub g hg heg => ?_
  have he : e ∈ as := hsub.subset (by simp)
  have hf : f ∈ as := hsub.subset (by simp)
  refine Bool.eq_false_iff.2 fun hfg => ?_
  have hef := (hK e he).eq_of_common (hK f hf) (has f hf) (hbs g hg) heg hfg
  have hne : test e.1 f.1 = false := List.pairwise_iff_forall_sublist.1 hapart hsub
  rw [hne] at hef
  exact absurd hef Bool.false_ne_true

/-- **The one-sided test is a matching**, for keys that are pairwise unequal. -/
theorem beqBy_iff_matched (hK : ∀ e ∈ as, Exchanges test pK e.1) (has : ∀ e ∈ as, pK e.1)
    (hbs : ∀ e ∈ bs, pK e.1) (hapart : Apart test as) (hapart' : Apart test bs) :
    beqBy test eq as bs = true ↔ Matched test eq as bs := by
  rw [beqBy, Bool.and_eq_true_iff, beq_iff_eq, List.all_eq_true]
  constructor
  · rintro ⟨hlen, hfound⟩
    obtain ⟨cs, rest, hperm, heq⟩ :=
      exists_perm_of_all_found (hapart.disjoint hK has hbs) hfound
    -- Equally many entries on both sides leave none of the right without a partner.
    have hrest : rest = [] := by
      have h1 := hperm.length_eq
      have h2 := (isEqv_iff_forall₂.1 heq).length_eq
      rw [List.length_append] at h1
      exact List.length_eq_zero_iff.1 (by omega)
    exact ⟨cs, by simpa [hrest] using hperm, heq⟩
  · intro h
    refine ⟨h.length_eq, all_found_of_matched (fun e he f hf g hg hef heg => ?_) h⟩
    have hfg := ((hK e he f.1 (hbs f hf) hef).2 g.1 (hbs g hg)).trans heg
    have hgf := ((hK e he g.1 (hbs g hg) heg).2 f.1 (hbs f hf)).trans hef
    exact hapart'.eq_of_test hf hg hfg hgf

/-! ### Matchings -/

/-- An entry is exchanged with its key and its value. -/
theorem exchanges_entry {e : κ × α} (hkey : Exchanges test pK e.1) (hval : Exchanges eq pV e.2) :
    Exchanges (entryBeq test eq) (fun f => pK f.1 ∧ pV f.2) e := by
  intro f hf hef
  obtain ⟨hk, hv⟩ := Bool.and_eq_true_iff.1 hef
  obtain ⟨hk', hsameKey⟩ := hkey f.1 hf.1 hk
  obtain ⟨hv', hsameVal⟩ := hval f.2 hf.2 hv
  refine ⟨Bool.and_eq_true_iff.2 ⟨hk', hv'⟩, fun g hg => ?_⟩
  show (test f.1 g.1 && eq f.2 g.2) = (test e.1 g.1 && eq e.2 g.2)
  rw [hsameKey g.1 hg.1, hsameVal g.2 hg.2]

/-- A list of entries matches itself where its keys and values equal themselves. -/
theorem Matched.refl (h : ∀ e ∈ as, test e.1 e.1 = true ∧ eq e.2 e.2 = true) :
    Matched test eq as as :=
  ⟨as, .refl as, isEqv_iff_forall₂.2
    (List.forall₂_same.2 fun e he => Bool.and_eq_true_iff.2 (h e he))⟩

/-- A matching turned round. -/
theorem Matched.symm {p : κ × α → Prop} (hex : ∀ e ∈ as, Exchanges (entryBeq test eq) p e)
    (hbs : ∀ e ∈ bs, p e) (h : Matched test eq as bs) : Matched test eq bs as := by
  obtain ⟨cs, hperm, heq⟩ := h
  have hcs : ∀ e ∈ cs, p e := fun e he => hbs e (hperm.mem_iff.1 he)
  -- The partners change sides one by one, and then the right takes the order of the left.
  have hback := isEqv_iff_forall₂.1 (Exchanges.isEqv hex cs hcs heq).1
  obtain ⟨ds, hds, hperm'⟩ := List.perm_comp_forall₂ hperm.symm hback
  exact ⟨ds, hperm', isEqv_iff_forall₂.2 hds⟩

/-- Two matchings, one after the other. -/
theorem Matched.trans {p : κ × α → Prop} (hex : ∀ e ∈ as, Exchanges (entryBeq test eq) p e)
    (hbs : ∀ e ∈ bs, p e) (hcs : ∀ e ∈ cs, p e) (h : Matched test eq as bs)
    (h' : Matched test eq bs cs) : Matched test eq as cs := by
  obtain ⟨xs, hxs, hax⟩ := h
  obtain ⟨ys, hys, hby⟩ := h'
  obtain ⟨zs, hxz, hzs⟩ := List.perm_comp_forall₂ hxs (isEqv_iff_forall₂.1 hby)
  have hpx : ∀ e ∈ xs, p e := fun e he => hbs e (hxs.mem_iff.1 he)
  have hpz : ∀ e ∈ zs, p e := fun e he => hcs e ((hzs.trans hys).mem_iff.1 he)
  obtain ⟨-, hsame⟩ := Exchanges.isEqv hex xs hpx hax
  exact ⟨zs, hzs.trans hys, (hsame zs hpz).symm.trans (isEqv_iff_forall₂.2 hxz)⟩

/-- Every entry of the right has a partner on the left. -/
theorem Matched.exists_of_mem (h : Matched test eq as bs) {f : κ × α} (hf : f ∈ bs) :
    ∃ e ∈ as, test e.1 f.1 = true ∧ eq e.2 f.2 = true := by
  obtain ⟨cs, hperm, heq⟩ := h
  rw [isEqv_iff_forall₂] at heq
  obtain ⟨i, hi, rfl⟩ := List.mem_iff_getElem.1 (hperm.mem_iff.2 hf)
  have hai : i < as.length := heq.length_eq ▸ hi
  exact ⟨as[i], List.getElem_mem hai, Bool.and_eq_true_iff.1 (heq.get hai hi)⟩

/-- Matched entries have equal sums of words, where equal entries have equal words. -/
theorem Matched.foldr_eq {γ : Type} {word : κ × α → γ} {add : γ → γ → γ} [LeftCommutative add]
    (zero : γ) (h : Matched test eq as bs)
    (hword : ∀ e ∈ as, ∀ f ∈ bs, test e.1 f.1 = true → eq e.2 f.2 = true → word e = word f) :
    (as.map word).foldr add zero = (bs.map word).foldr add zero := by
  obtain ⟨cs, hperm, heq⟩ := h
  have hwords : as.map word = cs.map word := map_eq_of_isEqv heq fun e he f hf hef =>
    hword e he f (hperm.mem_iff.1 hf) (Bool.and_eq_true_iff.1 hef).1 (Bool.and_eq_true_iff.1 hef).2
  rw [hwords]
  exact (hperm.map word).foldr_eq zero

/-- Entries with pairwise unequal keys are exchanged as a whole. -/
theorem exchanges_beqBy (hK : ∀ e ∈ as, Exchanges test pK e.1)
    (hV : ∀ e ∈ as, Exchanges eq pV e.2) (hself : ∀ e ∈ as, pK e.1 ∧ pV e.2)
    (hapart : Apart test as) :
    Exchanges (beqBy test eq) (fun bs => Apart test bs ∧ ∀ e ∈ bs, pK e.1 ∧ pV e.2) as := by
  have hex : ∀ e ∈ as, Exchanges (entryBeq test eq) (fun f => pK f.1 ∧ pV f.2) e := fun e he =>
    exchanges_entry (hK e he) (hV e he)
  have hmatched : ∀ bs, Apart test bs ∧ (∀ e ∈ bs, pK e.1 ∧ pV e.2) →
      (beqBy test eq as bs = true ↔ Matched test eq as bs) := fun bs hbs =>
    beqBy_iff_matched hK (fun e he => (hself e he).1) (fun e he => (hbs.2 e he).1) hapart hbs.1
  rintro bs ⟨hapart', hbs⟩ hab
  have hm : Matched test eq as bs := (hmatched bs ⟨hapart', hbs⟩).1 hab
  have hm' : Matched test eq bs as := hm.symm hex hbs
  -- The entries of `bs` can be exchanged too, as equals of entries that can.
  have hKb : ∀ f ∈ bs, Exchanges test pK f.1 := fun f hf => by
    obtain ⟨e, he, hkey, -⟩ := hm.exists_of_mem hf
    exact (hK e he).of_eq (hbs f hf).1 hkey
  have hVb : ∀ f ∈ bs, Exchanges eq pV f.2 := fun f hf => by
    obtain ⟨e, he, -, hval⟩ := hm.exists_of_mem hf
    exact (hV e he).of_eq (hbs f hf).2 hval
  have hexb : ∀ f ∈ bs, Exchanges (entryBeq test eq) (fun g => pK g.1 ∧ pV g.2) f := fun f hf =>
    exchanges_entry (hKb f hf) (hVb f hf)
  have hmatchedb : ∀ cs, Apart test cs ∧ (∀ e ∈ cs, pK e.1 ∧ pV e.2) →
      (beqBy test eq bs cs = true ↔ Matched test eq bs cs) := fun cs hcs =>
    beqBy_iff_matched hKb (fun e he => (hbs e he).1) (fun e he => (hcs.2 e he).1) hapart' hcs.1
  refine ⟨(hmatchedb as ⟨hapart, hself⟩).2 hm', fun cs hcs => ?_⟩
  rw [Bool.eq_iff_iff, hmatchedb cs hcs, hmatched cs hcs]
  exact ⟨fun h => hm.trans hex hbs hcs.2 h, fun h => hm'.trans hexb hself hcs.2 h⟩

end Entries

end Stylesheet
