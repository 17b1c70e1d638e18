import TMEdge.Gateway.Replay
import TMEdge.Rollout.Model

/-!
# The way back to a node

An UPLINK names its node by `gw:<id>|<addr>:<port>`. IPv6 addresses contain the separator
before the port, so the source string is taken apart at its first bar and its last colon.

* `downlink_returns`: the address frame of a node is read back as it was written, and the
  source of an uplink is taken apart into the gateway, the address and the port it was made
  of, so that a command goes to the node the uplink came from.
-/

namespace TMEdge.Gateway

open Protocol GatewayServer List

/-- What `net.isIP` accepts: hexadecimal digits, dots, colons, and a zone. -/
structure IsIP (isIP : String → Bool) : Prop where
  chars : ∀ s, isIP s = true → ∀ c ∈ s.toList, c.isAlphanum = true ∨ c = '.' ∨ c = ':' ∨ c = '%'
  nonempty : isIP "" = false

variable {cfg : Config} {env : Env} {s : GatewayServer} {c : Conn} {u : Addressed}
  {payload : Buffer}

/-! ## Splitting text -/

theorem takeWhile_sep {p : Char → Bool} {l : List Char} (sep : Char) (rest : List Char)
    (hl : ∀ c ∈ l, p c = true) (hSep : p sep = false) :
    (l ++ sep :: rest).takeWhile p = l ∧ (l ++ sep :: rest).dropWhile p = sep :: rest := by
  rw [takeWhile_append_of_pos hl, dropWhile_append_of_pos hl]
  simp [hSep]

theorem rtakeWhile_sep {p : Char → Bool} {l : List Char} (front : List Char) (sep : Char)
    (hl : ∀ c ∈ l, p c = true) (hSep : p sep = false) :
    (front ++ sep :: l).rtakeWhile p = l ∧ (front ++ sep :: l).rdropWhile p = front ++ [sep] := by
  have hReverse : (front ++ sep :: l).reverse = l.reverse ++ sep :: front.reverse := by simp
  obtain ⟨hTake, hDrop⟩ := takeWhile_sep (p := p) (l := l.reverse) sep front.reverse
    (by simpa using hl) hSep
  constructor
  · rw [List.rtakeWhile, hReverse, hTake, reverse_reverse]
  · rw [List.rdropWhile, hReverse, hDrop]
    simp

theorem ascii_of_alphanum {c : Char} (h : c.isAlphanum = true) : c.toNat < 128 := by
  simp only [Char.isAlphanum, Char.isAlpha, Char.isUpper, Char.isLower, Char.isDigit,
    Bool.or_eq_true, Bool.and_eq_true, decide_eq_true_eq, ge_iff_le, UInt32.le_iff_toNat_le] at h
  have hVal : c.toNat = c.val.toNat := rfl
  have hUpper : 'Z'.val.toNat = 90 := rfl
  have hLower : 'z'.val.toNat = 122 := rfl
  have hDigit : '9'.val.toNat = 57 := rfl
  omega

theorem decimal_toString (n : Nat) : decimal (toString n).toList = n := by
  rw [Nat.toString_eq_ofList_toDigits, String.toList_ofList]
  exact Nat.ofDigitChars_ten_toDigits

theorem isDigit_toString {n : Nat} {d : Char} (hd : d ∈ (toString n).toList) : d.isDigit = true := by
  rw [Nat.toString_eq_ofList_toDigits, String.toList_ofList] at hd
  exact Nat.isDigit_of_mem_toDigits (by decide) (by decide) hd

theorem toList_uplinkSource : (uplinkSource c u).toList =
    'g' :: 'w' :: ':' :: (c.id.toList ++ '|' :: (u.addr.toList ++ ':' :: (toString u.port).toList)) := by
  simp [uplinkSource, String.toList_append]

/-! ## The source of an uplink -/

theorem bar_of_name {n : Nat} {id : List Char} (hId : isName n id = true) :
    id ≠ [] ∧ ∀ c ∈ id, decide (c ≠ '|') = true := by
  simp only [isName, Bool.and_eq_true, decide_eq_true_eq, all_eq_true] at hId
  obtain ⟨⟨hPos, _⟩, hAll⟩ := hId
  refine ⟨fun hNil => by simp [hNil] at hPos, fun c hc => decide_eq_true ?_⟩
  rintro rfl
  have hBad := hAll _ hc
  revert hBad
  decide

theorem isName_parseHello {json : Option Json} {h : Hello} {mac : String}
    (hParse : parseHello json = some (h, mac)) : isName 64 h.id.toList = true := by
  simp only [parseHello, Option.bind_eq_bind, Option.bind_eq_some_iff] at hParse
  obtain ⟨_, _, _, _, _, _, _, _, _, _, _, _, hParse⟩ := hParse
  split at hParse
  · rename_i hGood
    cases hParse
    exact hGood.2.1
  · cases hParse

theorem parseAddressed_eq {isIP : String → Bool} (h : parseAddressed isIP payload = some u) :
    isIP u.addr = true ∧ (∀ c ∈ u.addr.toList, c.toNat < 128) ∧ u.addr.toList.length ≤ 255 ∧
      1 ≤ u.port ∧ u.port ≤ 65535 := by
  unfold parseAddressed at h
  split at h
  · cases h
  · rename_i n _
    split at h
    · cases h
    · dsimp only at h
      split at h
      · cases h
      · rename_i hLow
        split at h
        · cases h
        · rename_i hGood
          cases h
          simp only [not_or, Bool.not_eq_true', Bool.not_eq_false] at hGood
          have hLt := leValue_lt (subarray payload (1 + n.toNat) (3 + n.toNat))
          have hLength : (subarray payload (1 + n.toNat) (3 + n.toNat)).length ≤ 2 := by
            simp only [subarray, length_take]
            omega
          have hPow : 256 ^ (subarray payload (1 + n.toNat) (3 + n.toNat)).length ≤ 256 ^ 2 :=
            Nat.pow_le_pow_right (by decide) hLength
          refine ⟨hGood.1, ?_, ?_, by dsimp only; omega, by dsimp only; omega⟩
          · intro c hc
            simp only [String.toList_ofList, mem_map] at hc
            obtain ⟨b, hb, rfl⟩ := hc
            have hByte : ¬ 127 < b := by
              intro hBig
              exact hLow (any_eq_true.mpr ⟨b, hb, by simpa using hBig⟩)
            have hTop : (127 : UInt8).toNat = 127 := rfl
            rw [UInt8.lt_iff_toNat_lt] at hByte
            rw [Char.toNat_ofNat]
            split <;> omega
          · have hn := n.toNat_lt
            simp only [String.toList_ofList, length_map, subarray, length_take]
            omega

theorem matchSource_uplinkSource {isIP : String → Bool} (hIP : IsIP isIP)
    (hId : isName 64 c.id.toList = true) (hAddr : isIP u.addr = true) :
    matchSource (uplinkSource c u) = some (c.id, u.addr, (toString u.port).toList) := by
  obtain ⟨hIdNil, hIdBar⟩ := bar_of_name hId
  obtain ⟨hTake, hDrop⟩ := takeWhile_sep (p := fun d => decide (d ≠ '|')) '|'
    (u.addr.toList ++ ':' :: (toString u.port).toList) hIdBar (by decide)
  have hDigits : ∀ d ∈ (toString u.port).toList, decide (d ≠ ':') = true := by
    intro d hd
    have hDigit := isDigit_toString hd
    refine decide_eq_true ?_
    rintro rfl
    revert hDigit
    decide
  obtain ⟨hPort, hFront⟩ := rtakeWhile_sep (p := fun d => decide (d ≠ ':')) u.addr.toList ':'
    hDigits (by decide)
  have hAddrNil : u.addr.toList ≠ [] := by
    intro hNil
    have hEmpty : u.addr = "" := String.toList_inj.mp hNil
    rw [hEmpty, hIP.nonempty] at hAddr
    cases hAddr
  have hLines : (u.addr.toList.any fun d =>
      d = '\n' || d = '\r' || d = '\u2028' || d = '\u2029') = false := by
    rw [any_eq_false]
    intro d hd hLine
    have hKind := hIP.chars u.addr hAddr d hd
    simp only [Bool.or_eq_true, decide_eq_true_eq] at hLine
    rcases hLine with ((rfl | rfl) | rfl) | rfl <;> revert hKind <;> decide
  have hAllDigits : (toString u.port).toList.all Char.isDigit = true :=
    all_eq_true.mpr fun d hd => isDigit_toString hd
  have hShorter : (u.addr.toList ++ ':' :: (toString u.port).toList).length ≠
      (toString u.port).toList.length := by
    simp only [length_append, length_cons]
    omega
  unfold matchSource
  rw [toList_uplinkSource]
  simp only [hTake, hDrop, hPort, hFront, dropLast_concat, hLines, hAllDigits]
  rw [if_neg (by simp [hIdNil, hAddrNil]; omega)]
  simp

theorem gatewayOf_uplinkSource (hId : isName 64 c.id.toList = true) :
    gatewayOf (uplinkSource c u) = some c.id ∧
      Rollout.Rollouts.gatewayOf (some (uplinkSource c u)) = some c.id := by
  obtain ⟨hNil, hBar⟩ := bar_of_name hId
  obtain ⟨hTake, _⟩ := takeWhile_sep (p := fun d => decide (d ≠ '|')) '|'
    (u.addr.toList ++ ':' :: (toString u.port).toList) hBar (by decide)
  have hShort : c.id.toList.length <
      (c.id.toList ++ '|' :: (u.addr.toList ++ ':' :: (toString u.port).toList)).length := by
    simp only [length_append, length_cons]
    omega
  constructor
  · unfold gatewayOf
    rw [toList_uplinkSource]
    simp only [hTake]
    rw [if_pos ⟨hNil, hShort⟩, String.ofList_toList]
  · unfold Rollout.Rollouts.gatewayOf
    simp only [Option.map_some, toList_uplinkSource, hTake]
    rw [if_pos ⟨hNil, hShort⟩, String.ofList_toList]

/-- A command for the source of an uplink goes to the connection of its gateway, and names
the node the uplink came from. -/
theorem sendDownlink_uplinkSource (hIP : IsIP cfg.isIP) (hId : isName 64 c.id.toList = true)
    (hParse : parseAddressed cfg.isIP payload = some u) {d : Conn} (hConn : s.conns.get c.id = some d)
    (hValid : credentialValid cfg env d = true) (datagram : Buffer) :
    ∃ w, parseAddressed cfg.isIP w = some ⟨u.addr, u.port, datagram⟩ ∧
      s.sendDownlink cfg env (uplinkSource c u) datagram =
        match frame tDownlink.toNat w with
        | .error e => (s, .error e)
        | .ok _ => (s.emit (.write d.session tDownlink w), .ok true) := by
  obtain ⟨hAddr, hAscii, hLength, hPort⟩ := parseAddressed_eq hParse
  obtain ⟨w, hw, hBack⟩ := parseAddressed_addressed u.port datagram hAddr hAscii hLength
    (by omega)
  refine ⟨w, hBack, ?_⟩
  have hRange : ¬ ((!cfg.isIP u.addr) = true ∨ decimal (toString u.port).toList < 1 ∨
      65535 < decimal (toString u.port).toList) := by
    rw [decimal_toString, hAddr]
    simp only [Bool.not_true, Bool.false_eq_true, false_or]
    omega
  unfold GatewayServer.sendDownlink
  simp only [matchSource_uplinkSource hIP hId hAddr, hConn, hValid, Bool.not_true,
    Bool.false_eq_true, if_false]
  rw [if_neg hRange, decimal_toString]
  simp only [hw] <;> rfl

theorem downlink_returns (cfg : Config) (hIP : IsIP cfg.isIP) :
    (∀ (addr : String) (port : Int) (datagram : Buffer), cfg.isIP addr = true →
      addr.toList.length ≤ 255 → 1 ≤ port → port ≤ 65535 →
        ∃ w, addressed cfg.isIP addr port datagram = .ok w ∧
          parseAddressed cfg.isIP w = some ⟨addr, port.toNat, datagram⟩) ∧
    ∀ (json : Option Json) (h : Hello) (mac : String) (c : Conn) (payload : Buffer)
      (u : Addressed), parseHello json = some (h, mac) → c.id = h.id →
      parseAddressed cfg.isIP payload = some u →
        matchSource (uplinkSource c u) = some (c.id, u.addr, (toString u.port).toList) ∧
        decimal (toString u.port).toList = u.port ∧
        gatewayOf (uplinkSource c u) = some c.id ∧
        Rollout.Rollouts.gatewayOf (some (uplinkSource c u)) = some c.id ∧
        ∀ (s : GatewayServer) (env : Env) (d : Conn) (datagram : Buffer),
          s.conns.get c.id = some d → credentialValid cfg env d = true →
            ∃ w, parseAddressed cfg.isIP w = some ⟨u.addr, u.port, datagram⟩ ∧
              s.sendDownlink cfg env (uplinkSource c u) datagram =
                match frame tDownlink.toNat w with
                | .error e => (s, .error e)
                | .ok _ => (s.emit (.write d.session tDownlink w), .ok true) := by
  refine ⟨fun addr port datagram hAddr hLength hLow hHigh => ?_, fun json h mac c payload u hHello hSame hParse => ?_⟩
  · refine parseAddressed_addressed port datagram hAddr (fun c hc => ?_) hLength ⟨hLow, hHigh⟩
    rcases hIP.chars addr hAddr c hc with hAlnum | rfl | rfl | rfl
    · exact ascii_of_alphanum hAlnum
    all_goals decide
  · have hAddr := (parseAddressed_eq hParse).1
    have hId : isName 64 c.id.toList = true := hSame ▸ isName_parseHello hHello
    exact ⟨matchSource_uplinkSource hIP hId hAddr, decimal_toString u.port,
      (gatewayOf_uplinkSource hId).1, (gatewayOf_uplinkSource hId).2,
      fun s env d datagram hConn hValid =>
        sendDownlink_uplinkSource hIP hId hParse hConn hValid datagram⟩

def exampleUplink : Buffer := 12 :: ascii "fe80::1%eth0" ++ [65, 156, 7]

theorem downlink_returns_v6 :
    parseAddressed exampleServer.isIP exampleUplink = some ⟨"fe80::1%eth0", 40001, [7]⟩ ∧
    matchSource (uplinkSource ⟨"esanhouse", [], 0⟩ ⟨"fe80::1%eth0", 40001, [7]⟩) =
      some ("esanhouse", "fe80::1%eth0", ['4', '0', '0', '0', '1']) := by
  have hIP : IsIP exampleServer.isIP := by
    refine ⟨fun s hs => ?_, by decide +kernel⟩
    obtain rfl : s = "fe80::1%eth0" := by simpa [exampleServer] using hs
    have hAll : ("fe80::1%eth0".toList.all fun c =>
        c.isAlphanum || c = '.' || c = ':' || c = '%') = true := rfl
    intro c hc
    simpa [or_assoc] using List.all_eq_true.mp hAll c hc
  have hParse : parseAddressed exampleServer.isIP exampleUplink =
      some ⟨"fe80::1%eth0", 40001, [7]⟩ := by decide +kernel
  have hHello : parseHello (exampleServer.parseJson []) = some (exampleHello, exampleMac) := by
    decide +kernel
  refine ⟨hParse, ?_⟩
  have hMatch := ((downlink_returns exampleServer hIP).2 _ exampleHello exampleMac
    ⟨"esanhouse", [], 0⟩ exampleUplink _ hHello rfl hParse).1
  rw [hMatch]
  decide +kernel

end TMEdge.Gateway
