import TMEdge.Gateway.Sessions

/-!
# A HELLO and its replays

A gateway server over a HELLO journal on disk. The journal purges a nonce with its own
reading of the clock, which may be past the end of the window the first reading was in.

* `installed_twice`: the same HELLO lets two sessions in when the clock passes the end of
  its window between the two readings of the second.
* `installed_once`: it lets in one at most, over all restarts and whatever the clock does
  otherwise, if this never happens to a HELLO the journal has accepted before.
-/

namespace TMEdge.Gateway

open Library Protocol HelloReplayStore GatewayServer List

/-! ## Counting -/

theorem countP_modify {α : Type} (p : α → Bool) (f : α → α) {l : List α} {i : Nat} {a : α}
    (h : l[i]? = some a) :
    (l.modify i f).countP p + (p a).toNat = l.countP p + (p (f a)).toNat := by
  induction l generalizing i with
  | nil => simp at h
  | cons b l ih =>
    cases i with
    | zero =>
      obtain rfl : b = a := by simpa using h
      simp only [modify_zero_cons, countP_cons]
      cases p b <;> cases p (f b) <;> simp
    | succ i =>
      have hRest := ih (i := i) (by simpa using h)
      simp only [modify_succ_cons, countP_cons]
      omega

def installs (h : Hello) : Effect → Bool
  | .installed _ h' => h' = h
  | _ => false

def journals (h : Hello) : Effect → Bool
  | .journaled h' => h' = h
  | _ => false

/-- The session waits for an answer that lets it in. -/
def waits (h : Hello) : Option Session → Bool
  | some x => x.pending.any fun p => p.hello = h && p.answer = some true
  | none => false

variable {cfg : Config} {env : Env} {s s' : GatewayServer} {ref r : Nat} {x : Session}
  {h h' : Hello} {token : Buffer} {f : Session → Session} {e : Effect} {reason : String}

/-! ## The invariant -/

/-- Every HELLO the journal has accepted is spent, was accepted once, and stands for at most
one session that is in or will be; `due` are sessions about to be let in. -/
structure Once (s : GatewayServer) (due : Hello → Nat) : Prop where
  answered : ∀ {ref x p}, s.session? ref = some x → x.pending = some p → p.answer.isSome = true
  spent : ∀ {h}, .journaled h ∈ s.trace → Spent s.file h.key h.expires
  once : ∀ h, s.trace.countP (journals h) ≤ 1
  paid : ∀ h, s.trace.countP (installs h) + s.sessions.countP (waits h) + due h ≤
    s.trace.countP (journals h)

@[simp] theorem trace_updateSession : (s.updateSession ref f).trace = s.trace := rfl

theorem countP_updateSession (s : GatewayServer) (ref : Nat) (f : Session → Session) (h : Hello) :
    (s.updateSession ref f).sessions.countP (waits h) + (waits h (s.session? ref)).toNat =
      s.sessions.countP (waits h) + (waits h ((s.session? ref).map f)).toNat := by
  unfold session? updateSession
  cases hAt : s.sessions[ref]? with
  | none => simp [modify_eq_self (by simpa using hAt), waits]
  | some y => exact countP_modify (waits h) (Option.map f) hAt

variable {due due' : Hello → Nat}

theorem Once.mono (hOnce : Once s due) (hDue : ∀ h, due' h ≤ due h) : Once s due' :=
  { hOnce with paid := fun h => le_trans (Nat.add_le_add_left (hDue h) _) (hOnce.paid h) }

variable (ref f) in
/-- Nothing is journaled, and no session is let in or waits that did not before. -/
theorem Once.updateSession (hOnce : Once s due)
    (hf : ∀ x, (f x).pending = x.pending ∨ (f x).pending = none) :
    Once (s.updateSession ref f) due where
  answered := by
    intro r y p hy hp
    rw [session?_updateSession] at hy
    split at hy
    · obtain ⟨x, hx, rfl⟩ := Option.map_eq_some_iff.mp hy
      rcases hf x with hSame | hNone
      · exact hOnce.answered hx (hSame ▸ hp)
      · rw [hNone] at hp
        cases hp
    · exact hOnce.answered hy hp
  spent := hOnce.spent
  once := hOnce.once
  paid h := by
    have hCount := countP_updateSession s ref f h
    have hLe : (waits h ((s.session? ref).map f)).toNat ≤ (waits h (s.session? ref)).toNat := by
      cases s.session? ref with
      | none => exact le_rfl
      | some x =>
        rcases hf x with hSame | hNone
        · simp [waits, hSame]
        · simp [waits, hNone]
    have hPaid := hOnce.paid h
    change s.trace.countP (installs h) + _ + _ ≤ s.trace.countP (journals h)
    omega

theorem Once.emit (hOnce : Once s due) (hJournal : ∀ h, journals h e = false)
    (hInstall : ∀ h, installs h e = false) : Once (s.emit e) due where
  answered := hOnce.answered
  spent := by
    intro h hMem
    rcases mem_append.mp hMem with hOld | hNew
    · exact hOnce.spent hOld
    · have hNot := hJournal h
      rw [← mem_singleton.mp hNew] at hNot
      simp [journals] at hNot
  once h := by simpa [GatewayServer.emit, hJournal] using hOnce.once h
  paid h := by simpa [GatewayServer.emit, hJournal, hInstall] using hOnce.paid h

theorem Once.deny (hOnce : Once s due) : Once (s.deny ref reason) due := by
  unfold GatewayServer.deny
  split
  · exact hOnce
  · split
    · exact hOnce
    · exact Once.emit (hOnce.updateSession _ _ fun x => Or.inl rfl) (by intro _; rfl) (by intro _; rfl)

/-- The HELLO a session gets to wait with was due if its answer is yes. -/
theorem Once.park {answer : Bool}
    (hOnce : Once s fun h' => if answer ∧ h' = h then 1 else 0) :
    Once (s.updateSession ref fun x => { x with pending := some ⟨h, token, some answer⟩ })
      fun _ => 0 where
  answered := by
    intro r y p hy hp
    rw [session?_updateSession] at hy
    split at hy
    · obtain ⟨x, hx, rfl⟩ := Option.map_eq_some_iff.mp hy
      cases hp
      rfl
    · exact hOnce.answered hy hp
  spent := hOnce.spent
  once := hOnce.once
  paid h' := by
    have hCount := countP_updateSession s ref
      (fun x => { x with pending := some ⟨h, token, some answer⟩ }) h'
    have hPaid := hOnce.paid h'
    have hLe : (waits h' ((s.session? ref).map fun x =>
        { x with pending := some ⟨h, token, some answer⟩ })).toNat ≤
          if answer ∧ h' = h then 1 else 0 := by
      cases s.session? ref with
      | none => exact Nat.zero_le _
      | some x =>
        by_cases hSame : h' = h
        · cases answer <;> simp [waits, hSame]
        · have hNe : h ≠ h' := Ne.symm hSame
          simp [waits, hNe]
    change s.trace.countP (installs h') + _ + 0 ≤ s.trace.countP (journals h')
    omega

theorem Once.journaled {file : HelloFile} (hOnce : Once s fun _ => 0)
    (hNew : .journaled h ∉ s.trace) (hSpent : Spent file h.key h.expires)
    (hKept : ∀ {key t}, Spent s.file key t → Spent file key t) :
    Once (({ s with file := file } : GatewayServer).emit (.journaled h))
      fun h' => if true ∧ h' = h then 1 else 0 where
  answered := hOnce.answered
  spent := by
    intro h' hMem
    rcases mem_append.mp hMem with hOld | hLast
    · exact hKept (hOnce.spent hOld)
    · cases mem_singleton.mp hLast
      exact hSpent
  once h' := by
    change (s.trace ++ [Effect.journaled h]).countP (journals h') ≤ 1
    by_cases hSame : h = h'
    · subst hSame
      have hZero : s.trace.countP (journals h) = 0 := by
        refine countP_eq_zero.mpr fun e he hJournal => hNew ?_
        cases e <;> simp only [journals, decide_eq_true_eq, Bool.false_eq_true] at hJournal
        rwa [hJournal] at he
      simp [hZero, journals]
    · simpa [journals, hSame] using hOnce.once h'
  paid h' := by
    have hPaid := hOnce.paid h'
    change (s.trace ++ [Effect.journaled h]).countP (installs h') + s.sessions.countP (waits h') + _ ≤
      (s.trace ++ [Effect.journaled h]).countP (journals h')
    by_cases hSame : h = h'
    · subst hSame
      simp only [countP_append, countP_singleton, installs, journals]
      simp
      omega
    · have hNe : h' ≠ h := Ne.symm hSame
      simpa [installs, journals, hSame, hNe] using hPaid

/-- The session that is let in was due. -/
theorem Once.install (hOnce : Once s fun h' => if h' = h then 1 else 0) :
    Once (s.install ref h token) fun _ => 0 := by
  unfold GatewayServer.install
  split
  · exact hOnce.mono fun _ => Nat.zero_le _
  · split
    · exact hOnce.mono fun _ => Nat.zero_le _
    · have hConn := hOnce.updateSession ref
        (fun x => { x with conn := some ⟨h.id, token, ref⟩ }) fun x => Or.inl rfl
      have hReplaced : ∀ (p : Effect → Bool), (∀ n, p (.destroy n) = false) →
          ((s.conns.get h.id).map fun old => Effect.destroy old.session).toList.countP p = 0 := by
        intro p hp
        cases s.conns.get h.id with
        | none => rfl
        | some old => simp [hp]
      refine ⟨hConn.answered, fun hMem => ?_, fun h' => ?_, fun h' => ?_⟩
      · rename_i h'
        refine hConn.spent ?_
        simpa using hMem
      · have hZero := hReplaced (journals h') fun _ => rfl
        simpa [countP_append, hZero, journals] using hConn.once h'
      · have hPaid := hConn.paid h'
        have hZero := hReplaced (journals h') fun _ => rfl
        have hZero' := hReplaced (installs h') fun _ => rfl
        change s.trace.countP (installs h') + _ + _ ≤ s.trace.countP (journals h') at hPaid
        simp only [countP_append, hZero, hZero', countP_singleton, installs, journals]
        by_cases hSame : h' = h
        · subst hSame
          simp at hPaid ⊢
          omega
        · have hNe : h ≠ h' := Ne.symm hSame
          simp [hSame, hNe] at hPaid ⊢
          omega

/-! ## Steps -/

/-- The second reading of the clock is still in the window of a HELLO that the first one was
in and that the journal has accepted before. -/
def InWindow (cfg : Config) (s : GatewayServer) : Event → Prop
  | .frame env _ _ payload => ∀ h mac, parseHello (cfg.parseJson payload) = some (h, mac) →
      |env.now - h.ts| ≤ helloWindowMs → .journaled h ∈ s.trace → env.journalNow ≤ h.expires
  | _ => True

theorem once_journal (hStore : cfg.helloStore = .file) (hOnce : Once s fun _ => 0)
    (hTime : .journaled h ∈ s.trace → env.journalNow ≤ h.expires) :
    Once (s.journal cfg env ref h token) fun _ => 0 := by
  have hPurged : Once { s with hellos := s.hellos.filter fun t => decide (env.journalNow ≤ t) }
      fun _ => 0 := ⟨hOnce.answered, hOnce.spent, hOnce.once, hOnce.paid⟩
  unfold GatewayServer.journal
  dsimp only
  split
  · exact hPurged.deny
  · split
    · exact hPurged.deny
    · have hMarked := hPurged.updateSession ref
        (fun x => { x with authenticating := true }) fun x => Or.inl rfl
      have hWritten : Once { GatewayServer.updateSession
          { s with hellos := s.hellos.filter fun t => decide (env.journalNow ≤ t) } ref
            (fun x => { x with authenticating := true }) with
              file := (accept s.file h.id h.nonce h.expires env.journalNow env.io).1 } fun _ => 0 :=
        ⟨hMarked.answered, fun hMem => (hMarked.spent hMem).kept, hMarked.once, hMarked.paid⟩
      simp only [hStore]
      split
      · exact hWritten.deny
      · refine Once.park (hWritten.mono fun _ => ?_)
        simp
      · rename_i hAccepted
        have hNew : .journaled h ∉ s.trace := fun hMem =>
          (hOnce.spent hMem).not_accepted (hTime hMem) hAccepted
        exact Once.park (hMarked.journaled hNew (spent_of_accepted hAccepted) Spent.kept)

theorem once_frame {type : UInt8} {payload : Buffer} (hStore : cfg.helloStore = .file)
    (hOnce : Once s fun _ => 0) (hWindow : InWindow cfg s (.frame env ref type payload)) :
    Once (s.onFrame cfg env ref type payload) fun _ => 0 := by
  unfold GatewayServer.onFrame
  split
  · exact hOnce
  · split
    · exact hOnce
    · split
      · unfold GatewayServer.accepted
        split
        · exact hOnce.deny
        · split
          · split
            · exact hOnce
            · exact hOnce.emit (by intro _; rfl) (by intro _; rfl)
          · exact hOnce
      · split
        · exact hOnce.deny
        · split
          · exact hOnce.deny
          · unfold GatewayServer.hello
            split
            · exact hOnce.deny
            · split
              · exact hOnce.deny
              · rename_i h mac hParse
                split
                · exact hOnce.deny
                · rename_i hNow
                  split
                  · exact hOnce.deny
                  · refine once_journal hStore (hOnce.emit (by intro _; rfl) (by intro _; rfl)) ?_
                    intro hMem
                    refine hWindow h mac hParse (by omega) ?_
                    simpa [GatewayServer.emit] using hMem

theorem once_resume {answer : Option Bool} (hOnce : Once s fun _ => 0) :
    Once (s.resume ref answer) fun _ => 0 := by
  unfold GatewayServer.resume
  split
  · exact hOnce
  · rename_i p hp
    obtain ⟨x, hx, hp⟩ := Option.bind_eq_some_iff.mp hp
    have hCleared := hOnce.updateSession ref (fun x => { x with pending := none })
      fun x => Or.inr rfl
    obtain ⟨a, ha⟩ := Option.isSome_iff_exists.mp (hOnce.answered hx hp)
    simp only [ha, Option.orElse_some]
    cases a with
    | false => exact hCleared.deny
    | true =>
      refine Once.install ⟨hCleared.answered, hCleared.spent, hCleared.once, fun h' => ?_⟩
      have hCount := countP_updateSession s ref (fun x => { x with pending := none }) h'
      have hPaid := hOnce.paid h'
      rw [hx] at hCount
      have hGone : waits h' ((some x).map fun x => { x with pending := none }) = false := rfl
      have hWas : waits h' (some x) = decide (p.hello = h') := by simp [waits, hp, ha]
      rw [hGone, hWas] at hCount
      rw [trace_updateSession]
      by_cases hSame : h' = p.hello
      · subst hSame
        simp at hCount ⊢
        omega
      · have hNe : p.hello ≠ h' := Ne.symm hSame
        simp [hSame, hNe] at hCount ⊢
        omega

theorem once_step (hStore : cfg.helloStore = .file) (hOnce : Once s fun _ => 0) (event : Event)
    (hWindow : InWindow cfg s event) : Once (s.step cfg event) fun _ => 0 := by
  cases event with
  | connect =>
    simp only [GatewayServer.step]
    split
    · refine ⟨fun hy hp => ?_, hOnce.spent, hOnce.once, fun h => ?_⟩
      · rename_i r y p
        simp only [session?, getElem?_append] at hy
        split at hy
        · exact hOnce.answered hy hp
        · rcases hLater : r - s.sessions.length with _ | n
          · rw [hLater] at hy
            cases hy
            cases hp
          · rw [hLater] at hy
            cases hy
      · simpa [waits] using hOnce.paid h
    · exact hOnce
  | frame env ref type payload => exact once_frame hStore hOnce hWindow
  | resume ref answer => exact once_resume hOnce
  | closed ref =>
    have hClosed := hOnce.updateSession ref (fun x => { x with closed := true })
      fun x => Or.inl rfl
    simp only [GatewayServer.step, GatewayServer.onClose]
    split
    · exact hOnce
    · split
      · exact hClosed
      · split
        · exact ⟨hClosed.answered, hClosed.spent, hClosed.once, hClosed.paid⟩
        · exact hClosed
  | sendDownlink env source datagram =>
    simp only [GatewayServer.step, GatewayServer.sendDownlink]
    split
    · exact hOnce
    · split
      · exact hOnce
      · split
        · exact hOnce.emit (by intro _; rfl) (by intro _; rfl)
        · split
          · exact hOnce
          · split
            · exact hOnce
            · split
              · exact hOnce
              · exact hOnce.emit (by intro _; rfl) (by intro _; rfl)
  | restart =>
    refine ⟨fun hx => ?_, hOnce.spent, hOnce.once, fun h => ?_⟩
    · rename_i r y p
      simp only [GatewayServer.step, session?, getElem?_map] at hx
      cases hAt : s.sessions[r]? <;> simp [hAt] at hx
    · have hNone : (s.sessions.map fun _ => (none : Option Session)).countP (waits h) = 0 := by
        refine countP_eq_zero.mpr fun y hy => ?_
        obtain ⟨_, _, rfl⟩ := mem_map.mp hy
        simp [waits]
      have hPaid := hOnce.paid h
      change s.trace.countP (installs h) + List.countP (waits h)
        (s.sessions.map fun _ => (none : Option Session)) + 0 ≤ s.trace.countP (journals h)
      omega

theorem once_new (cfg : Config) (file : HelloFile) : Once (.new cfg file) fun _ => 0 where
  answered hx := by simp [session?, GatewayServer.new] at hx
  spent hMem := by simp [GatewayServer.new] at hMem
  once _ := by simp [GatewayServer.new]
  paid _ := by simp [GatewayServer.new]

/-! ## Runs -/

theorem installed_once (cfg : Config) (hStore : cfg.helloStore = .file) (file : HelloFile)
    (events : List Event) (hWindow : Guarded (step cfg) (InWindow cfg) (.new cfg file) events)
    (h : Hello) :
    (run (step cfg) (.new cfg file) events).trace.countP (installs h) ≤ 1 := by
  have hOnce : Once (run (step cfg) (.new cfg file) events) fun _ => 0 :=
    run_invariant_guarded (Once · fun _ => 0)
      (fun _ event hOnce hIn => once_step hStore hOnce event hIn) (once_new cfg file) hWindow
  have hPaid := hOnce.paid h
  have hLe := hOnce.once h
  omega

/-- The clock may stand still or jump between frames. -/
theorem inWindow_of_eq {type : UInt8} {payload : Buffer} (h : env.journalNow = env.now) :
    InWindow cfg s (.frame env ref type payload) := by
  intro hello mac _ hNow _
  have hAbs := abs_le.mp hNow
  rw [h, Hello.expires]
  omega

def exampleMac : String := "e47787d98f9710b1196aac8a0e187e11ce8665da3090a5e4ff3e99ca206378a0"

def exampleHello : Hello := ⟨"esanhouse", 1000000, "n1"⟩

/-- The text of the HELLO, as far as the length of a payload matters. -/
def examplePayload : Buffer := List.replicate 130 32

def exampleServer : Config where
  crypto :=
    { hmacSha256 := fun _ _ => fromHex exampleMac.toList
      hkdfSha256 := fun _ _ _ _ => []
      gcmOpen := fun _ _ _ _ _ => none }
  isIP := fun s => s = "fe80::1%eth0"
  parseJson := fun _ => some (.object [("v", .number 1), ("gatewayId", .string "esanhouse"),
    ("ts", .number 1000000), ("nonce", .string "n1"), ("mac", .string exampleMac)])
  token := ascii "gateway-token-00"
  perGateway := false
  helloStore := .file

def exampleEnv (now journalNow : Int) : Env := ⟨now, journalNow, fun _ => [], .ok⟩

/-- One session says HELLO, a second one repeats it when the clock reads `now` and then
`journalNow`. -/
def exampleReplay (now journalNow : Int) : List Event :=
  [.connect, .frame (exampleEnv 1000000 1000000) 0 tHello examplePayload, .resume 0 none,
    .connect, .frame (exampleEnv now journalNow) 1 tHello examplePayload, .resume 1 none]

theorem installed_once_replayed :
    (run (step exampleServer) (.new exampleServer .absent)
      (exampleReplay 1060000 1060000)).trace.countP (installs exampleHello) ≤ 1 := by
  refine installed_once exampleServer rfl .absent _ ?_ exampleHello
  exact ⟨trivial, inWindow_of_eq rfl, trivial, trivial, inWindow_of_eq rfl, trivial, trivial⟩

/-- The clock passes the end of the window between the two readings of the replay. -/
theorem installed_twice : ¬ ∀ (cfg : Config), cfg.helloStore = .file →
    ∀ (file : HelloFile) (events : List Event) (h : Hello),
      (run (step cfg) (.new cfg file) events).trace.countP (installs h) ≤ 1 := by
  intro hAll
  have hTwice : (run (step exampleServer) (.new exampleServer .absent)
      (exampleReplay 1060000 1060001)).trace.countP (installs exampleHello) = 2 := by
    decide +kernel
  have hOne := hAll exampleServer rfl .absent (exampleReplay 1060000 1060001) exampleHello
  omega

end TMEdge.Gateway
