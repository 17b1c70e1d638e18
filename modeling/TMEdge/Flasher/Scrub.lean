import TMEdge.Flasher.Settings

/-!
# Keeping secrets out of what is shown

`secretsOf` and `scrub` of `shared/flasher/settings.ts`.

* `not_infix_scrub`: a scrubbed text has none of the secrets in it.
-/

namespace TMEdge.Flasher

open Library List

/-- The bullet. -/
def bullet : UInt16 := 0x2022

def bullets : Text := List.replicate 6 bullet

/-- `split(secret)` of what is left after `skip` units; the secret is not empty. -/
def split (secret : Text) : Nat → Text → List Text
  | _, [] => [[]]
  | skip + 1, _ :: t => split secret skip t
  | 0, c :: t =>
    if secret <+: c :: t then [] :: split secret (secret.length - 1) t
    else
      match split secret 0 t with
      | [] => [[c]]
      | p :: parts => (c :: p) :: parts

/-- `out.split(secret).join('••••••')`. -/
def mask (secret out : Text) : Text := bullets.intercalate (split secret 0 out)

def secretsOf (s : NodeSettings) : List Text := [s.password, s.key].filter (· ≠ [])

def scrub (text : Text) (secrets : List Text) : Text :=
  secrets.foldl (fun out secret => mask secret out) text

/-! ## What is left -/

variable {secret w t a b : Text} {parts : List Text}

theorem split_ne_nil (secret : Text) (skip : Nat) (t : Text) : split secret skip t ≠ [] := by
  induction t generalizing skip with
  | nil => exact cons_ne_nil _ _
  | cons c t ih =>
    cases skip with
    | succ skip => exact ih skip
    | zero =>
      rw [split]
      split
      · exact cons_ne_nil _ _
      · split
        · exact cons_ne_nil _ _
        · exact cons_ne_nil _ _

/-- The parts are parts of the text without the secret, and the first begins it. -/
theorem split_spec (hSecret : secret ≠ []) (skip : Nat) (t : Text) :
    (∀ p ∈ split secret skip t, p <:+: t ∧ ¬ secret <:+: p) ∧
      (skip = 0 → ∀ p parts, split secret skip t = p :: parts → p <+: t) := by
  induction t generalizing skip with
  | nil =>
    refine ⟨fun p hp => ?_, fun _ p parts hEq => ?_⟩
    · rw [split, mem_singleton] at hp
      subst hp
      exact ⟨List.nil_infix, fun h => hSecret (infix_nil.mp h)⟩
    · rw [split] at hEq
      cases hEq
      exact nil_prefix
  | cons c t ih =>
    cases skip with
    | succ skip =>
      refine ⟨fun p hp => ?_, nofun⟩
      obtain ⟨hIn, hNot⟩ := (ih skip).1 p hp
      exact ⟨hIn.trans (suffix_cons c t).isInfix, hNot⟩
    | zero =>
      rw [split]
      split
      · refine ⟨fun p hp => ?_, fun _ p parts hEq => ?_⟩
        · rcases mem_cons.mp hp with rfl | hp
          · exact ⟨List.nil_infix, fun h => hSecret (infix_nil.mp h)⟩
          · obtain ⟨hIn, hNot⟩ := (ih _).1 p hp
            exact ⟨hIn.trans (suffix_cons c t).isInfix, hNot⟩
        · cases hEq
          exact nil_prefix
      · rename_i hHere
        obtain ⟨hParts, hFirst⟩ := ih 0
        cases hSplit : split secret 0 t with
        | nil => exact absurd hSplit (split_ne_nil _ _ _)
        | cons q rest =>
          have hPrefix : c :: q <+: c :: t :=
            cons_prefix_cons.mpr ⟨rfl, hFirst rfl q rest hSplit⟩
          dsimp only
          refine ⟨fun p hp => ?_, fun _ p parts hEq => ?_⟩
          · rcases mem_cons.mp hp with rfl | hp
            · refine ⟨hPrefix.isInfix, fun hIn => ?_⟩
              rcases infix_cons_iff.mp hIn with hBegins | hLater
              · exact hHere (hBegins.trans hPrefix)
              · exact (hParts q (hSplit ▸ mem_cons_self)).2 hLater
            · obtain ⟨hIn, hNot⟩ := hParts p (hSplit ▸ mem_cons_of_mem _ hp)
              exact ⟨hIn.trans (suffix_cons c t).isInfix, hNot⟩
          · cases hEq
            exact hPrefix

/-- What has no bullet lies before or after one. -/
theorem infix_around {c : UInt16} (hc : c ∉ w) (h : w <:+: a ++ c :: b) : w <:+: a ∨ w <:+: b := by
  obtain ⟨l, r, hEq⟩ := h
  rcases append_eq_append_iff.mp hEq with ⟨d, rfl, -⟩ | ⟨d, hLeft, hRight⟩
  · exact Or.inl ⟨l, d, rfl⟩
  · cases d with
    | nil => exact Or.inl ⟨l, [], by rw [append_nil, hLeft, append_nil]⟩
    | cons x d =>
      obtain ⟨rfl, rfl⟩ := List.cons.inj hRight
      rcases append_eq_append_iff.mp hLeft with ⟨e, -, rfl⟩ | ⟨e, -, hEnd⟩
      · exact absurd (mem_append_right e mem_cons_self) hc
      · cases e with
        | nil =>
          rw [nil_append] at hEnd
          exact absurd (hEnd ▸ mem_cons_self) hc
        | cons y e =>
          obtain ⟨-, rfl⟩ := List.cons.inj hEnd
          exact Or.inr ⟨e, r, rfl⟩

theorem infix_bullets (hw : w ≠ []) (hBullet : bullet ∉ w) (n : Nat)
    (h : w <:+: List.replicate n bullet ++ a) : w <:+: a := by
  induction n with
  | zero => exact h
  | succ n ih =>
    rcases infix_around (a := []) hBullet h with hNil | hRest
    · exact absurd (infix_nil.mp hNil) hw
    · exact ih hRest

/-- What has no bullet lies in one of the parts. -/
theorem infix_intercalate (hw : w ≠ []) (hBullet : bullet ∉ w)
    (h : w <:+: bullets.intercalate parts) : ∃ p ∈ parts, w <:+: p := by
  induction parts with
  | nil => exact absurd (infix_nil.mp h) hw
  | cons p parts ih =>
    cases parts with
    | nil => exact ⟨p, mem_cons_self, by simpa [List.intercalate] using h⟩
    | cons q parts =>
      have hSplit : bullets.intercalate (p :: q :: parts) =
          p ++ bullet :: (List.replicate 5 bullet ++ bullets.intercalate (q :: parts)) := by
        simp [List.intercalate, bullets, List.replicate]
      rw [hSplit] at h
      rcases infix_around hBullet h with hHere | hLater
      · exact ⟨p, mem_cons_self, hHere⟩
      · obtain ⟨p', hp', hIn⟩ := ih (infix_bullets hw hBullet 5 hLater)
        exact ⟨p', mem_cons_of_mem _ hp', hIn⟩

theorem not_infix_mask_self (hSecret : secret ≠ []) (hBullet : bullet ∉ secret) (out : Text) :
    ¬ secret <:+: mask secret out := by
  intro h
  obtain ⟨p, hp, hIn⟩ := infix_intercalate hSecret hBullet h
  exact ((split_spec hSecret 0 out).1 p hp).2 hIn

theorem not_infix_mask (hSecret : secret ≠ []) (hw : w ≠ []) (hBullet : bullet ∉ w) {out : Text}
    (hOut : ¬ w <:+: out) : ¬ w <:+: mask secret out := by
  intro h
  obtain ⟨p, hp, hIn⟩ := infix_intercalate hw hBullet h
  exact hOut (hIn.trans ((split_spec hSecret 0 out).1 p hp).1)

/-- Texts that can be masked: not empty, and without a bullet. -/
def Maskable (secret : Text) : Prop := secret ≠ [] ∧ bullet ∉ secret

theorem not_infix_scrub_of_not_infix {secrets : List Text} (h : ∀ s ∈ secrets, Maskable s)
    (hw : Maskable w) {text : Text} (hText : ¬ w <:+: text) : ¬ w <:+: scrub text secrets := by
  induction secrets generalizing text with
  | nil => exact hText
  | cons s secrets ih =>
    exact ih (fun s' hs' => h s' (mem_cons_of_mem _ hs'))
      (not_infix_mask (h s mem_cons_self).1 hw.1 hw.2 hText)

theorem not_infix_scrub {secrets : List Text} (h : ∀ s ∈ secrets, Maskable s) {text : Text}
    (hw : w ∈ secrets) : ¬ w <:+: scrub text secrets := by
  induction secrets generalizing text with
  | nil => exact absurd hw not_mem_nil
  | cons s secrets ih =>
    have hRest : ∀ s' ∈ secrets, Maskable s' := fun s' hs' => h s' (mem_cons_of_mem _ hs')
    have hs := h s mem_cons_self
    rcases mem_cons.mp hw with rfl | hw
    · exact not_infix_scrub_of_not_infix hRest hs (not_infix_mask_self hs.1 hs.2 text)
    · exact ih hRest hw

end TMEdge.Flasher
