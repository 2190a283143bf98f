import Almanac.Proofs.Credentials

/-!
# Addresses to listen at

The address to listen at is put together from a host and a port with a colon between them. For a
host that is read as an IPv4 address that is the text of the address with its port. For a host that
is read as an IPv6 address it is no text of an address, since there the colon belongs to the host;
only in brackets would it be one.
-/

namespace Almanac

namespace IpAddress

/-- Holds of the readers that read the same with `t` behind a text and leave `t`. -/
def Leaves (t : List Char) (read : List Char → Option (α × List Char)) : Prop :=
  ∀ s, read (s ++ t) = (read s).map fun r => (r.1, r.2 ++ t)

variable {t : List Char}

theorem digitSpan_append {digit? : Char → Option Nat} (ht : ∀ c ∈ t.head?, digit? c = none)
    (s : List Char) :
    digitSpan digit? (s ++ t) = ((digitSpan digit? s).1, (digitSpan digit? s).2 ++ t) := by
  induction s with
  | nil =>
    cases t with
    | nil => rfl
    | cons c t => simp [digitSpan, ht c rfl]
  | cons c s ih =>
    rw [List.cons_append, digitSpan, digitSpan]
    cases digit? c with
    | none => rfl
    | some d => simp only [ih]

theorem leaves_octet? (ht : ∀ c ∈ t.head?, Text.digit? c = none) : Leaves t octet? := by
  intro s
  simp only [octet?, digitSpan_append ht]
  split <;> rfl

theorem leaves_group? (ht : ∀ c ∈ t.head?, Text.hexDigit? c = none) : Leaves t group? := by
  intro s
  simp only [group?, digitSpan_append ht]
  split <;> rfl

theorem leaves_below? (ht : ∀ c ∈ t.head?, Text.digit? c = none) (bound : Nat) :
    Leaves t (below? bound) := by
  intro s
  simp only [below?, digitSpan_append ht]
  split <;> rfl

theorem char?_append {wanted : Char} (ht : wanted ∉ t.head?) (s : List Char) :
    char? wanted (s ++ t) = (char? wanted s).map (· ++ t) := by
  cases s with
  | nil =>
    cases t with
    | nil => rfl
    | cons c t => exact if_neg fun h : c = wanted => ht (h ▸ rfl)
  | cons c s =>
    simp only [List.cons_append, char?]
    split <;> rfl

theorem Leaves.past {read : List Char → Option (α × List Char)} (hread : Leaves t read)
    {wanted : Char} (ht : wanted ∉ t.head?) : Leaves t fun s => char? wanted s >>= read := by
  intro s
  simp only [char?_append ht]
  cases char? wanted s with
  | none => rfl
  | some s => exact hread s

theorem Leaves.bind {read : List Char → Option (α × List Char)} (hread : Leaves t read)
    {next : α → List Char → Option (β × List Char)} (hnext : ∀ a, Leaves t (next a)) :
    Leaves t fun s => read s >>= fun r => next r.1 r.2 := by
  intro s
  simp only [hread s]
  cases read s with
  | none => rfl
  | some r => exact hnext r.1 r.2

theorem leaves_bits? (hdigit : ∀ c ∈ t.head?, Text.digit? c = none) (hpoint : '.' ∉ t.head?) :
    Leaves t bits? := by
  have hoctet : Leaves t octet? := leaves_octet? hdigit
  have hnext := hoctet.past hpoint
  have hlast (a b c d : Nat) :
      Leaves t fun s => some (((a * 256 + b) * 256 + c) * 256 + d, s) := fun s => rfl
  exact hoctet.bind fun a => hnext.bind fun b => hnext.bind fun c => hnext.bind (hlast a b c)

/-- Holds of the texts that end every group: they begin with no hexadecimal digit, no point and no
colon. -/
structure EndsGroups (t : List Char) : Prop where
  digit : ∀ c ∈ t.head?, Text.hexDigit? c = none
  point : '.' ∉ t.head?
  colon : ':' ∉ t.head?

theorem digit?_eq_none_of_hexDigit? {c : Char} (h : Text.hexDigit? c = none) :
    Text.digit? c = none := by
  unfold Text.hexDigit? at h
  split at h
  · cases h
  · next hc => exact if_neg hc

theorem EndsGroups.leaves_bits? (ht : EndsGroups t) : Leaves t bits? :=
  IpAddress.leaves_bits? (fun c hc => digit?_eq_none_of_hexDigit? (ht.digit c hc)) ht.point

theorem Leaves.pastColon? {read : List Char → Option (α × List Char)} (hread : Leaves t read)
    (ht : ':' ∉ t.head?) (first : Bool) : Leaves t fun s => pastColon? first s >>= read := by
  cases first with
  | true => exact hread
  | false => exact hread.past ht

/-- Reading groups goes from one group to the next, with one less allowed. -/
theorem EndsGroups.groups_append (ht : EndsGroups t) (limit : Nat) (first : Bool)
    (s : List Char) :
    groups limit first (s ++ t) = ((groups limit first s).1, (groups limit first s).2.1,
      (groups limit first s).2.2 ++ t) := by
  induction limit generalizing first s with
  | zero => rfl
  | succ limit ih =>
    have hbits := ht.leaves_bits?.pastColon? ht.colon first s
    have hgroup := (leaves_group? ht.digit).pastColon? ht.colon first s
    dsimp only at hbits hgroup
    rw [groups, groups, hbits, hgroup]
    -- the last group there may be cannot be the first half of an IPv4 address
    by_cases hlimit : limit = 0
    · rw [if_pos hlimit, if_pos hlimit]
      cases pastColon? first s >>= group? with
      | none => rfl
      | some r => simp only [Option.map_some, ih]
    · rw [if_neg hlimit, if_neg hlimit]
      cases pastColon? first s >>= bits? with
      | some r => rfl
      | none =>
        cases pastColon? first s >>= group? with
        | none => rfl
        | some r => simp only [Option.map_some, Option.map_none, ih]

theorem EndsGroups.leaves_groups? (ht : EndsGroups t) : Leaves t groups? := by
  intro s
  rw [groups?, groups?, ht.groups_append]
  rcases groups 8 true s with ⟨head, embedded, rest⟩
  dsimp only
  split
  · rfl
  split
  · rfl
  have hcolons : (char? ':' (rest ++ t) >>= char? ':') =
      (char? ':' rest >>= char? ':').map (· ++ t) := by
    rw [char?_append ht.colon]
    cases char? ':' rest with
    | none => rfl
    | some rest => exact char?_append ht.colon rest
  rw [hcolons]
  cases char? ':' rest >>= char? ':' with
  | none => rfl
  | some rest =>
    simp only [Option.map_some, Option.bind_eq_bind, Option.bind_some, ht.groups_append]

theorem digitSpan_of_digits {s : List Char} (hs : ∀ c ∈ s, c.isDigit = true) :
    digitSpan Text.digit? s = (s.map fun c => c.toNat - 48, []) := by
  induction s with
  | nil => rfl
  | cons c s ih =>
    have hc : Text.digit? c = some (c.toNat - 48) := if_pos (hs c List.mem_cons_self)
    rw [digitSpan, hc, ih fun c' hc' => hs c' (List.mem_cons_of_mem c hc')]
    rfl

theorem below?_decimal {n bound : Nat} (hn : n < bound) :
    below? bound (Text.decimal n) = some (n, []) := by
  have hvalue : valueOf 10 ((Text.decimal n).map fun c => c.toNat - 48) = n := by
    rw [valueOf, List.foldl_map]
    exact Text.ofDigitChars_decimal n
  have hne : (Text.decimal n).map (fun c => c.toNat - 48) ≠ [] := by
    simpa using Text.decimal_ne_nil n
  rw [below?, digitSpan_of_digits fun c => Text.isDigit_of_mem_decimal]
  dsimp only
  rw [hvalue, if_neg (not_or.mpr ⟨hne, Nat.not_le.mpr hn⟩)]

theorem ofText?_eq_v4_iff {s : List Char} {bits : Nat} :
    ofText? s = some (.v4 bits) ↔ bits? s = some (bits, []) := by
  unfold ofText?
  split
  · next h => simp [h]
  · next h =>
    refine ⟨fun hread => ?_, fun hread => absurd hread (h bits)⟩
    split at hread <;> cases hread

theorem of_ofText?_eq_v6 {s : List Char} {groups : List Nat} (h : ofText? s = some (.v6 groups)) :
    (∀ bits, bits? s ≠ some (bits, [])) ∧ groups? s = some (groups, []) := by
  unfold ofText? at h
  split at h
  · cases h
  · next hbits =>
    refine ⟨hbits, ?_⟩
    split at h
    · next hgroups =>
      cases h
      exact hgroups
    · cases h

theorem octet?_bracket (s : List Char) : octet? ('[' :: s) = none :=
  rfl

theorem bits?_bracket (s : List Char) : bits? ('[' :: s) = none := by
  rw [bits?, octet?_bracket]
  rfl

/-- No address begins with a bracket. -/
theorem ofText?_bracket (s : List Char) : ofText? ('[' :: s) = none := by
  have hgroup : group? ('[' :: s) = none := rfl
  have hgroups : groups 8 true ('[' :: s) = ([], false, '[' :: s) := by
    rw [groups]
    simp only [pastColon?, Option.bind_eq_bind, Option.bind_some, bits?_bracket, hgroup, ite_true,
      ite_self]
  have hnone : groups? ('[' :: s) = none := by
    rw [groups?, hgroups]
    rfl
  rw [ofText?, bits?_bracket, hnone]

end IpAddress

namespace SocketAddress

open IpAddress

/-- What stands behind the host: a colon and the port. -/
def portText (port : Nat) : List Char :=
  ':' :: Text.decimal port

/-- No digit and no point comes right behind the host. -/
theorem leaves_bits?_portText (port : Nat) : Leaves (portText port) bits? := by
  refine leaves_bits? (fun c hc => ?_) fun h => ?_
  · cases hc
    rfl
  · cases h

theorem endsGroups_bracket (port : Nat) : EndsGroups (']' :: portText port) := by
  refine ⟨fun c hc => ?_, fun h => ?_, fun h => ?_⟩
  · cases hc
    rfl
  · cases h
  · cases h

theorem port_portText {port : Nat} (hport : port < 65536) :
    (char? ':' (portText port)).bind (below? 65536) = some (port, []) :=
  below?_decimal hport

variable {s host rest : List Char} {bits port : Nat} {groups : List Nat}

theorem ofText?_of_bits (hbits : bits? s = some (bits, rest))
    (hport : (char? ':' rest).bind (below? 65536) = some (port, [])) :
    ofText? s = some ⟨.v4 bits, 0, port⟩ := by
  simp only [ofText?, hbits, hport, Option.bind_eq_bind, Option.bind_some, ite_true]

theorem ofText?_of_groups (hbits : bits? s = none)
    (hgroups : (char? '[' s).bind groups? = some (groups, ']' :: rest))
    (hport : (char? ':' rest).bind (below? 65536) = some (port, [])) :
    ofText? s = some ⟨.v6 groups, 0, port⟩ := by
  have hbracket : char? ']' (']' :: rest) = some rest := rfl
  simp [ofText?, hbits, hgroups, hbracket, hport]

theorem ofText?_eq_none
    (hbits : ∀ bits rest, bits? s = some (bits, rest) →
      ∀ port, (char? ':' rest).bind (below? 65536) ≠ some (port, []))
    (hbracket : '[' ∉ s.head?) : ofText? s = none := by
  have hchar : char? '[' s = none := by
    cases s with
    | nil => rfl
    | cons c s => exact if_neg fun h : c = '[' => hbracket (h ▸ rfl)
  rw [ofText?, hchar]
  cases hfour : bits? s with
  | none => rfl
  | some r =>
    cases hport : (char? ':' r.2).bind (below? 65536) with
    | none => simp [hport]
    | some q =>
      have hrest : q.2 ≠ [] := fun h =>
        hbits r.1 r.2 hfour q.1 (hport.trans (congrArg (fun l => some (q.1, l)) h))
      simp [hport, hrest]

/-- An IPv4 address with a port. -/
theorem ofText?_v4 (hport : port < 65536) (hhost : IpAddress.ofText? host = some (.v4 bits)) :
    ofText? (host ++ portText port) = some ⟨.v4 bits, 0, port⟩ := by
  refine ofText?_of_bits ?_ (port_portText hport)
  rw [leaves_bits?_portText, ofText?_eq_v4_iff.mp hhost]
  rfl

/-- An IPv6 address in brackets with a port. -/
theorem ofText?_v6 (hport : port < 65536) (hhost : IpAddress.ofText? host = some (.v6 groups)) :
    ofText? ('[' :: host ++ ']' :: portText port) = some ⟨.v6 groups, 0, port⟩ := by
  have hgroups : groups? (host ++ ']' :: portText port) = some (groups, ']' :: portText port) := by
    rw [(endsGroups_bracket port).leaves_groups?, (of_ofText?_eq_v6 hhost).2]
    rfl
  exact ofText?_of_groups (bits?_bracket _) hgroups (port_portText hport)

/-- An IPv6 address without brackets is no host of a text with a port: what an IPv4 address takes
of it leaves something, and behind that the colon of the port still stands. -/
theorem ofText?_v6_bare (port : Nat) (hhost : IpAddress.ofText? host = some (.v6 groups)) :
    ofText? (host ++ portText port) = none := by
  obtain ⟨hbits, -⟩ := of_ofText?_eq_v6 hhost
  refine ofText?_eq_none (fun bits rest hread p hport => ?_) fun hbracket => ?_
  · rw [leaves_bits?_portText, Option.map_eq_some_iff] at hread
    obtain ⟨⟨bits, left⟩, hread, heq⟩ := hread
    cases heq
    cases left with
    | nil => exact hbits bits hread
    | cons c left =>
      obtain ⟨left', hchar, hbelow⟩ := Option.bind_eq_some_iff.mp hport
      obtain ⟨rfl, rfl⟩ : c = ':' ∧ left ++ portText port = left' :=
        Option.ite_none_right_eq_some.mp hchar |>.imp_right Option.some.inj
      have hcolon : ∀ c ∈ (portText port).head?, Text.digit? c = none := fun c hc => by
        cases hc
        rfl
      rw [leaves_below? hcolon, Option.map_eq_some_iff] at hbelow
      obtain ⟨r, -, hr⟩ := hbelow
      exact List.append_ne_nil_of_right_ne_nil r.2 (List.cons_ne_nil _ _) (Prod.mk.inj hr).2
  · cases host with
    | nil => cases hhost
    | cons c host =>
      cases hbracket
      rw [ofText?_bracket] at hhost
      cases hhost

end SocketAddress

namespace Settings

variable {s : Settings} {bits : Nat} {groups : List Nat}

theorem toList_listenAddress (s : Settings) :
    s.listenAddress.toList = s.server.bind.toList ++ SocketAddress.portText s.server.port := by
  simp [listenAddress, SocketAddress.portText]

theorem listenAddress_v4 (hport : s.server.port < 65536)
    (hbind : IpAddress.ofText? s.server.bind.toList = some (.v4 bits)) :
    SocketAddress.ofText? s.listenAddress.toList = some ⟨.v4 bits, 0, s.server.port⟩ := by
  rw [toList_listenAddress]
  exact SocketAddress.ofText?_v4 hport hbind

theorem listenAddress_v6 (hbind : IpAddress.ofText? s.server.bind.toList = some (.v6 groups)) :
    SocketAddress.ofText? s.listenAddress.toList = none := by
  rw [toList_listenAddress]
  exact SocketAddress.ofText?_v6_bare _ hbind

def bracketed (s : Settings) : Settings :=
  { s with server.bind := "[" ++ s.server.bind ++ "]" }

theorem listenAddress_bracketed (hport : s.server.port < 65536)
    (hbind : IpAddress.ofText? s.server.bind.toList = some (.v6 groups)) :
    SocketAddress.ofText? s.bracketed.listenAddress.toList =
      some ⟨.v6 groups, 0, s.server.port⟩ := by
  have htext : s.bracketed.listenAddress.toList =
      '[' :: s.server.bind.toList ++ ']' :: SocketAddress.portText s.server.port := by
    simp [toList_listenAddress, bracketed]
  rw [htext]
  exact SocketAddress.ofText?_v6 hport hbind

end Settings

namespace Startup

theorem serve_eq_unaddressed {flags : Flags} {loaded : Except SettingsError Settings}
    (h : SocketAddress.ofText? (flags.override (settled loaded).1).listenAddress.toList = none) :
    serve flags loaded =
      unaddressed ((settled loaded).2 ++ openLines (flags.override (settled loaded).1)) := by
  rw [serve]
  simp only [h]

/-- A host that is read as an IPv4 address makes with any port the text of that address with that
port, and the program listens there. One that is read as an IPv6 address makes no text of an
address with any port, and the program does not start; it would in brackets. -/
theorem listening_exact {s : Settings} {host : IpAddress}
    (hbind : IpAddress.ofText? s.server.bind.toList = some host)
    (hport : s.server.port < 65536) :
    (∀ bits, host = .v4 bits →
      SocketAddress.ofText? s.listenAddress.toList = some ⟨host, 0, s.server.port⟩ ∧
        ∀ arguments env file flags, Command.ofArguments arguments = .ok (.serve flags) →
          flags.override (settled (Settings.load (file (flags.path env)) env)).1 = s →
          ∃ log, ofArguments arguments env file = listening s ⟨host, 0, s.server.port⟩ log) ∧
      ∀ groups, host = .v6 groups →
        SocketAddress.ofText? s.listenAddress.toList = none ∧
          SocketAddress.ofText? s.bracketed.listenAddress.toList =
            some ⟨host, 0, s.server.port⟩ ∧
          ∀ arguments env file flags, Command.ofArguments arguments = .ok (.serve flags) →
            flags.override (settled (Settings.load (file (flags.path env)) env)).1 = s →
            ∃ log, ofArguments arguments env file = unaddressed log := by
  constructor
  · rintro bits rfl
    have haddress := Settings.listenAddress_v4 hport hbind
    refine ⟨haddress, fun arguments env file flags hserve hs => ?_⟩
    subst hs
    rw [ofArguments, hserve]
    exact ⟨_, serve_eq_listening_iff.mpr ⟨rfl, haddress, rfl⟩⟩
  · rintro groups rfl
    have haddress := Settings.listenAddress_v6 hbind
    refine ⟨haddress, Settings.listenAddress_bracketed hport hbind,
      fun arguments env file flags hserve hs => ?_⟩
    subst hs
    rw [ofArguments, hserve]
    exact ⟨_, serve_eq_unaddressed haddress⟩

/-- The program listens at the loopback address that it is told, at the default port. -/
theorem listening_exact_of_loopback :
    let s : Settings := { server := { bind := "127.0.0.1" } }
    let host : IpAddress := .v4 0x7F000001
    IpAddress.ofText? s.server.bind.toList = some host ∧ s.server.port < 65536 ∧
      Command.ofArguments ["--bind", "127.0.0.1"] = .ok (.serve { bind := some "127.0.0.1" }) ∧
      ∃ log, ofArguments ["--bind", "127.0.0.1"] [] (fun _ => none) =
        listening s ⟨host, 0, 3000⟩ log := by
  intro s host
  have hbind : IpAddress.ofText? s.server.bind.toList = some host := by decide +kernel
  have hport : s.server.port < 65536 := by decide
  have hserve : Command.ofArguments ["--bind", "127.0.0.1"] =
      .ok (.serve { bind := some "127.0.0.1" }) := by decide +kernel
  have hload : Settings.load none [] = .ok {} := by decide +kernel
  refine ⟨hbind, hport, hserve, ?_⟩
  refine ((listening_exact hbind hport).1 _ rfl).2 _ [] (fun _ => none) _ hserve ?_
  rw [hload]
  rfl

/-- The loopback address of IPv6 is read as an address but, with a port, not as one to listen
at. -/
theorem loopback_unaddressed :
    let s : Settings := { server := { bind := "::1" } }
    IpAddress.ofText? s.server.bind.toList = some (.v6 [0, 0, 0, 0, 0, 0, 0, 1]) ∧
      s.server.port < 65536 ∧ s.listenAddress = "::1:3000" ∧
      SocketAddress.ofText? s.listenAddress.toList = none ∧
      (ofArguments ["--bind", "::1"] [] fun _ => none).exitCode = 1 ∧
      (ofArguments ["--bind", "::1"] [] fun _ => none).complaint? =
        some "Error: invalid socket address syntax" := by
  decide +kernel

end Startup

end Almanac
