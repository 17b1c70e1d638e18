import TMEdge.Library.Url

/-!
# Where a sign-in leads

`safeNext` of `src/modules/student-auth/routes/student-auth-router.ts` and `safeAlgoNext` of
`src/algo/auth.ts`: each makes a place to go to of what a browser sent.

* `ownOrigin_iff`: when both stay on the site.
-/

namespace TMEdge.Auth

open Library

/-- `safeNext`; `none` is a value that is not a string. -/
def safeNext (raw : Option Text) : Text :=
  match raw with
  | none => js "/dashboard/"
  | some raw =>
    if !(js "/").isPrefixOf raw || (js "//").isPrefixOf raw then js "/dashboard/"
    else if (js "/login").isPrefixOf raw || (js "/signup").isPrefixOf raw then js "/dashboard/"
    else raw

/-- `/[\\\x00-\x20\x7f]/` -/
def isRefused (c : UInt16) : Bool := c = 92 || c ≤ 0x20 || c = 0x7F

/-- `/^\/(?:login|api|auth)(?:\/|$)/` -/
def isReserved (pathname : Text) : Bool :=
  [js "/login", js "/api", js "/auth"].any fun start =>
    start.isPrefixOf pathname && (pathname.drop start.length).head?.all (· = 47)

/-- `safeAlgoNext`. What passes the first check begins with one slash, so that its URL has the
origin of the base. -/
def safeAlgoNext (raw : Option Text) : Text :=
  match raw with
  | none => js "/"
  | some raw =>
    if !(js "/").isPrefixOf raw || (js "//").isPrefixOf raw || raw.any isRefused then js "/"
    else
      let url := Url.ofPath raw
      if (js "//").isPrefixOf url.pathname || isReserved url.pathname then js "/"
      else url.pathname ++ url.search ++ url.hash

/-- The first slash is not followed by another, but a browser sees one there: a backslash, or a
slash or a backslash after tabs and line ends. -/
def Smuggles (raw : Option Text) : Prop :=
  ∃ rest, raw = some (47 :: rest) ∧ rest.head? ≠ some 47 ∧
    (rest.find? fun c => !Url.isTabOrNewline c).any Url.isSlash = true

theorem safeAlgoNext_ownOrigin (raw : Option Text) : Url.ownOrigin (safeAlgoNext raw) = true := by
  unfold safeAlgoNext
  split
  next => decide
  next raw =>
    split
    next => decide
    next =>
      dsimp only
      split
      next => decide
      next hPath =>
        rw [Bool.or_eq_true, not_or, Bool.not_eq_true] at hPath
        exact Url.ownOrigin_ofPath raw hPath.1

/-- A letter after the first slash is no slash. -/
theorem not_smuggles_of_prefix {start raw : Text} {c : UInt16}
    (h : (47 :: c :: start).isPrefixOf raw = true) (hTab : Url.isTabOrNewline c = false)
    (hSlash : Url.isSlash c = false) : ¬ Smuggles (some raw) := by
  rintro ⟨rest, hRaw, -, hFind⟩
  obtain ⟨t, rfl⟩ := List.isPrefixOf_iff_prefix.mp h
  simp only [List.cons_append, Option.some.injEq, List.cons.injEq, true_and] at hRaw
  subst hRaw
  simp [hTab, hSlash] at hFind

theorem safeNext_ownOrigin_iff (raw : Option Text) :
    Url.ownOrigin (safeNext raw) = true ↔ ¬ Smuggles raw := by
  have hDashboard : Url.ownOrigin (js "/dashboard/") = true := by decide
  unfold safeNext
  split
  next => exact iff_of_true hDashboard (by rintro ⟨rest, hRaw, -⟩; cases hRaw)
  next raw =>
    split
    next hStart =>
      refine iff_of_true hDashboard ?_
      rintro ⟨rest, hRaw, hHead, -⟩
      cases hRaw
      rcases rest with - | ⟨c, rest⟩
      · revert hStart
        decide
      · have hSecond : c ≠ 47 := by simpa using hHead
        simp [js, hSecond.symm] at hStart
    next hStart =>
      split
      next hOwn =>
        refine iff_of_true hDashboard ?_
        rw [Bool.or_eq_true] at hOwn
        rcases hOwn with hLogin | hSignup
        · exact not_smuggles_of_prefix hLogin (by decide) (by decide)
        · exact not_smuggles_of_prefix hSignup (by decide) (by decide)
      next =>
        rw [Bool.or_eq_true, not_or, Bool.not_eq_true', Bool.not_eq_false,
          List.isPrefixOf_iff_prefix] at hStart
        obtain ⟨⟨rest, rfl⟩, hTwo⟩ := hStart
        have hHead : rest.head? ≠ some 47 := by
          rcases rest with - | ⟨c, rest⟩
          · simp
          · intro hEq
            obtain rfl : c = 47 := by simpa using hEq
            exact hTwo (by simp [js])
        change Url.ownOrigin (47 :: rest) = true ↔ _
        rw [Url.ownOrigin_slash, Bool.not_eq_true']
        constructor
        · rintro hOwn ⟨rest', hRaw, -, hFind⟩
          obtain rfl : rest = rest' := List.tail_eq_of_cons_eq (Option.some.inj hRaw)
          rw [hOwn] at hFind
          cases hFind
        · intro hNot
          by_contra hFind
          exact hNot ⟨rest, rfl, hHead, by simpa using hFind⟩

/-- Both stay on the site if and only if no slash is smuggled in. -/
theorem ownOrigin_iff (raw : Option Text) :
    Url.ownOrigin (safeNext raw) = true ∧ Url.ownOrigin (safeAlgoNext raw) = true ↔
      ¬ Smuggles raw := by
  rw [safeNext_ownOrigin_iff, and_iff_left (safeAlgoNext_ownOrigin raw)]

/-- A backslash after the first slash. -/
theorem backslash_leaves :
    safeNext (some (js "/\\evil.example")) = js "/\\evil.example" ∧
      Url.ownOrigin (safeNext (some (js "/\\evil.example"))) = false := by
  decide

end TMEdge.Auth
