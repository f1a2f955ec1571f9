import Kimserver.Codec.UrlGrammar

/-!
# What an accepted url consists of

The converse to `Kimserver.Codec.UrlGrammar`: when the two loops get through an url, it has the
parts of one. In each state the loop passes the characters of a kind, and what is not of the kind
tells how the url goes on.

## Main results

* `server_of_endsWell`, `parts_of_reads`: the parts of what is read
* `httpParserParseUrl_iff`: the urls that are accepted, and what is found in them
-/

namespace Kimserver

/-! ## The server -/

/-- The second machine gets through the bytes, and may end behind them. -/
def EndsWell (s : HostState) (rest : Bytes) : Prop :=
  rest.foldl httpParseHostChar s = .host ∨ rest.foldl httpParseHostChar s = .v6End ∨
    rest.foldl httpParseHostChar s = .port

section Host

variable {s : HostState} {rest : Bytes} {c : UInt8}

theorem EndsWell.cons (h : EndsWell s (c :: rest)) : EndsWell (httpParseHostChar s c) rest := h

theorem not_endsWell_dead : ¬ EndsWell .dead rest := by
  have hdead : rest.foldl httpParseHostChar .dead = .dead := by
    induction rest with
    | nil => rfl
    | cons c rest ih => exact ih
  unfold EndsWell
  rw [hdead]
  decide

theorem scanHost_endsWell {scan scan' : HostScan} {pos : ℕ} (hs : scan.s ≠ .dead)
    (hscan : scanHost pos rest scan = some scan') (hend : scan'.s.mayEnd = true) :
    EndsWell scan.s rest := by
  have hstate : scan'.s = rest.foldl httpParseHostChar scan.s ∧ scan'.s ≠ .dead := by
    induction rest generalizing pos scan with
    | nil =>
      rw [← Option.some.inj hscan]
      exact ⟨rfl, hs⟩
    | cons c rest ih =>
      obtain ⟨mid, hmid, hrest⟩ := Option.bind_eq_some_iff.mp hscan
      have hnext : mid.s = httpParseHostChar scan.s c ∧ mid.s ≠ .dead := by
        rw [HostScan.next] at hmid
        simp only at hmid
        split at hmid
        case h_1 => cases hmid
        case h_8 hdead _ _ _ _ _ _ =>
          rw [← Option.some.inj hmid]
          exact ⟨rfl, hdead⟩
        all_goals
          next h =>
            rw [← Option.some.inj hmid, h]
            exact ⟨rfl, by simp⟩
      rw [List.foldl_cons, ← hnext.1]
      exact ih hnext.2 hrest
  obtain ⟨hfold, hne⟩ := hstate
  unfold EndsWell
  rw [← hfold]
  cases hlast : scan'.s <;> rw [hlast] at hend hne <;> simp_all [HostState.mayEnd]

/-- The machine passes the characters of a kind; what is left begins with another one. -/
theorem EndsWell.split {p : UInt8 → Bool} (hp : ∀ c, p c = true → httpParseHostChar s c = s)
    (h : EndsWell s rest) : ∃ seg r, rest = seg ++ r ∧ (∀ c ∈ seg, p c = true) ∧
      EndsWell s r ∧ ∀ c ∈ r.head?, p c = false := by
  induction rest with
  | nil => exact ⟨[], [], rfl, by simp, h, by simp⟩
  | cons c rest ih =>
    by_cases hc : p c = true
    · have hcons := h.cons
      rw [hp c hc] at hcons
      obtain ⟨seg, r, rfl, hseg, hr, hfirst⟩ := ih hcons
      exact ⟨c :: seg, r, rfl, List.forall_mem_cons.mpr ⟨hc, hseg⟩, hr, hfirst⟩
    · exact ⟨[], c :: rest, rfl, by simp, h, by simpa using hc⟩

/-- The digits of a port. -/
theorem port_of_endsWell (h : EndsWell .port rest) : ∀ c ∈ rest, isNum c = true := by
  obtain ⟨seg, r, rfl, hseg, hr, hfirst⟩ := h.split fun c hc => (char_port c hc).2
  cases r with
  | nil => rwa [List.append_nil]
  | cons c r =>
    have hc : httpParseHostChar .port c = .dead := by
      rw [httpParseHostChar, if_neg (by simpa using hfirst c rfl)]
    exact absurd (hc ▸ hr.cons) not_endsWell_dead

/-- Behind a host there is a port or nothing. -/
theorem portPart_of_endsWell (hs : s = .host ∨ s = .v6End)
    (hfirst : ∀ c ∈ rest.head?, s = .host → isHostChar c = false) (h : EndsWell s rest) :
    ∃ port : Option Bytes, rest = port.elim [] (58 :: ·) ∧
      ∀ p ∈ port, p ≠ [] ∧ ∀ c ∈ p, isNum c = true := by
  cases rest with
  | nil => exact ⟨none, rfl, by simp⟩
  | cons c rest =>
    have hchar : httpParseHostChar s c = if c = 58 then .portStart else .dead := by
      rcases hs with rfl | rfl
      · rw [httpParseHostChar, if_neg (by simpa using hfirst c rfl rfl)]
      · rfl
    have hcons := h.cons
    rw [hchar] at hcons
    split_ifs at hcons with hc
    · refine ⟨some rest, by rw [hc]; rfl, ?_⟩
      intro p hp
      obtain rfl := Option.some.inj hp
      cases rest with
      | nil => exact absurd hcons (by unfold EndsWell; decide)
      | cons d p =>
        have hd : isNum d = true := by
          by_contra hd
          have hdead : httpParseHostChar .portStart d = .dead := by
            rw [httpParseHostChar, if_neg hd]
          exact absurd (hdead ▸ hcons.cons) not_endsWell_dead
        have hp := hcons.cons
        rw [(char_port d hd).1] at hp
        exact ⟨List.cons_ne_nil d p, List.forall_mem_cons.mpr ⟨hd, port_of_endsWell hp⟩⟩
    · exact absurd hcons not_endsWell_dead

/-- A zone goes up to the bracket. -/
theorem zone_of_endsWell (h : EndsWell .v6ZoneStart rest) :
    ∃ z r, rest = z ++ 93 :: r ∧ z ≠ [] ∧ (∀ c ∈ z, isZoneChar c = true) ∧ EndsWell .v6End r := by
  cases rest with
  | nil => exact absurd h (by unfold EndsWell; decide)
  | cons c rest =>
    have hc : isZoneChar c = true := by
      by_contra hc
      have hdead : httpParseHostChar .v6ZoneStart c = .dead := by
        rw [httpParseHostChar, if_neg hc]
      exact absurd (hdead ▸ h.cons) not_endsWell_dead
    have hrest := h.cons
    rw [(char_zone c hc).1] at hrest
    obtain ⟨z, r, rfl, hz, hr, hfirst⟩ := hrest.split fun c hc => (char_zone c hc).2
    cases r with
    | nil => exact absurd hr (by unfold EndsWell; decide)
    | cons d r =>
      have hcons := hr.cons
      rw [httpParseHostChar] at hcons
      split_ifs at hcons with hd hzone
      · exact ⟨c :: z, r, by rw [hd]; rfl, List.cons_ne_nil c z,
          List.forall_mem_cons.mpr ⟨hc, hz⟩, hcons⟩
      · exact absurd hzone (by simpa using hfirst d rfl)
      · exact absurd hcons not_endsWell_dead

/-- A host and a port. -/
theorem host_of_endsWell (h : EndsWell .hostStart rest) :
    ∃ (host : HostName) (port : Option Bytes), rest = host.bytes ++ port.elim [] (58 :: ·) ∧
      host.WellFormed ∧ ∀ p ∈ port, p ≠ [] ∧ ∀ c ∈ p, isNum c = true := by
  cases rest with
  | nil => exact absurd h (by unfold EndsWell; decide)
  | cons c rest =>
    have hcons := h.cons
    rw [httpParseHostChar] at hcons
    split_ifs at hcons with hbracket hname
    · -- an address in brackets
      cases rest with
      | nil => exact absurd hcons (by unfold EndsWell; decide)
      | cons d rest =>
        have hd : isV6Char d = true := by
          by_contra hd
          have hdead : httpParseHostChar .v6Start d = .dead := by
            rw [httpParseHostChar, if_neg (by simpa [isV6Char] using hd)]
          exact absurd (hdead ▸ hcons.cons) not_endsWell_dead
        have hrest := hcons.cons
        rw [(char_v6 d hd).1] at hrest
        obtain ⟨a, r, rfl, ha, hr, hfirst⟩ := hrest.split fun c hc => (char_v6 c hc).2
        have haddress : ∀ c ∈ d :: a, isV6Char c = true := List.forall_mem_cons.mpr ⟨hd, ha⟩
        cases r with
        | nil => exact absurd hr (by unfold EndsWell; decide)
        | cons e r =>
          have hlast := hr.cons
          rw [httpParseHostChar] at hlast
          split_ifs at hlast with he hv6 hzone
          · obtain ⟨port, rfl, hport⟩ := portPart_of_endsWell (Or.inr rfl)
              (fun _ _ hs => by cases hs) hlast
            refine ⟨.v6 (d :: a) none, port, ?_, ⟨List.cons_ne_nil d a, haddress, by simp⟩, hport⟩
            rw [hbracket, he]
            simp [HostName.bytes]
          · exact absurd hv6 (by simpa [isV6Char] using hfirst e rfl)
          · obtain ⟨z, r', rfl, hzne, hz, hend⟩ := zone_of_endsWell hlast
            obtain ⟨port, rfl, hport⟩ := portPart_of_endsWell (Or.inr rfl)
              (fun _ _ hs => by cases hs) hend
            refine ⟨.v6 (d :: a) (some z), port, ?_, ⟨List.cons_ne_nil d a, haddress, ?_⟩, hport⟩
            · rw [hbracket, hzone]
              simp [HostName.bytes]
            · rintro _ ⟨⟩
              exact ⟨hzne, hz⟩
          · exact absurd hlast not_endsWell_dead
    · -- a name
      obtain ⟨n, r, rfl, hn, hr, hfirst⟩ := hcons.split fun c hc => (char_host c hc).2
      obtain ⟨port, rfl, hport⟩ := portPart_of_endsWell (Or.inl rfl)
        (fun c hc _ => hfirst c hc) hr
      exact ⟨.name (c :: n), port, rfl, ⟨List.cons_ne_nil c n,
        List.forall_mem_cons.mpr ⟨hname, hn⟩⟩, hport⟩
    · exact absurd hcons not_endsWell_dead

/-- What is read of a server, up to the value of its port. -/
theorem server_of_endsWell {foundAt : Bool}
    (h : EndsWell (if foundAt then .userinfoStart else .hostStart) rest) :
    ∃ a : UrlServer, rest = a.bytes ∧ a.userinfo.isSome = foundAt ∧
      (∀ s ∈ a.userinfo, ∀ c ∈ s, isUserinfoChar c = true) ∧ a.host.WellFormed ∧
      ∀ p ∈ a.port, p ≠ [] ∧ ∀ c ∈ p, isNum c = true := by
  cases foundAt with
  | false =>
    obtain ⟨host, port, rfl, hhost, hport⟩ := host_of_endsWell h
    exact ⟨⟨none, host, port⟩, rfl, rfl, by simp, hhost, hport⟩
  | true =>
    -- the name ends with an at sign
    have hinfo : ∃ u r, rest = u ++ 64 :: r ∧ (∀ c ∈ u, isUserinfoChar c = true) ∧
        EndsWell .hostStart r := by
      cases rest with
      | nil => exact absurd h (by unfold EndsWell; decide)
      | cons c rest =>
        have hcons := EndsWell.cons h
        change EndsWell (httpParseHostChar .userinfoStart c) rest at hcons
        rw [httpParseHostChar] at hcons
        split_ifs at hcons with hat hc
        · exact ⟨[], rest, by rw [hat]; rfl, by simp, hcons⟩
        · obtain ⟨u, r, rfl, hu, hr, hfirst⟩ := hcons.split fun c hc => (char_userinfo c hc).2
          cases r with
          | nil => exact absurd hr (by unfold EndsWell; decide)
          | cons d r =>
            have hlast := hr.cons
            rw [httpParseHostChar] at hlast
            split_ifs at hlast with hd hd'
            · exact ⟨c :: u, r, by rw [hd]; rfl, List.forall_mem_cons.mpr ⟨hc, hu⟩, hlast⟩
            · exact absurd hd' (by simpa using hfirst d rfl)
            · exact absurd hlast not_endsWell_dead
        · exact absurd hcons not_endsWell_dead
    obtain ⟨u, r, rfl, hu, hr⟩ := hinfo
    obtain ⟨host, port, rfl, hhost, hport⟩ := host_of_endsWell hr
    refine ⟨⟨some u, host, port⟩, ?_, rfl, ?_, hhost, hport⟩
    · simp [UrlServer.bytes, UrlServer.info]
    · rintro _ ⟨⟩
      exact hu

end Host

/-! ## The states of the first loop -/

section Reads

variable {s : ParserState} {rest : Bytes}

/-- The loop passes the characters of a kind; what is left begins with another one. -/
theorem reads_split {p : UInt8 → Bool} (hp : ∀ c, p c = true → parseUrlChar s c = s)
    (h : readsUrl s rest = true) : ∃ seg r, rest = seg ++ r ∧ (∀ c ∈ seg, p c = true) ∧
      readsUrl s r = true ∧ ∀ c ∈ r.head?, p c = false := by
  induction rest with
  | nil => exact ⟨[], [], rfl, by simp, h, by simp⟩
  | cons c rest ih =>
    by_cases hc : p c = true
    · have hcons := (readsUrl_cons.mp h).2
      rw [hp c hc] at hcons
      obtain ⟨seg, r, rfl, hseg, hr, hfirst⟩ := ih hcons
      exact ⟨c :: seg, r, rfl, List.forall_mem_cons.mpr ⟨hc, hseg⟩, hr, hfirst⟩
    · exact ⟨[], c :: rest, rfl, by simp, h, by simpa using hc⟩

theorem reads_fragmentChar : ∀ c,
    (urlChar (parseUrlChar .reqFragment c) ≠ .fail → isFragmentChar c = true) ∧
      (urlChar (parseUrlChar .reqFragmentStart c) ≠ .fail → isFragmentChar c = true) := by
  decide +kernel

theorem fragment_of_reads (hs : s = .reqFragmentStart ∨ s = .reqFragment)
    (h : readsUrl s rest = true) : ∀ c ∈ rest, isFragmentChar c = true := by
  induction rest generalizing s with
  | nil => simp
  | cons c rest ih =>
    obtain ⟨hfail, hrest⟩ := readsUrl_cons.mp h
    have hc : isFragmentChar c = true := by
      rcases hs with rfl | rfl
      · exact (reads_fragmentChar c).2 hfail
      · exact (reads_fragmentChar c).1 hfail
    refine List.forall_mem_cons.mpr ⟨hc, ih ?_ hrest⟩
    rcases hs with rfl | rfl
    · rw [(char_fragment c hc).2]
      split_ifs
      · exact Or.inl rfl
      · exact Or.inr rfl
    · exact Or.inr (char_fragment c hc).1

/-- The parts behind a path. -/
structure TailParts (query fragment : Option Bytes) : Prop where
  query : ∀ s ∈ query, ∀ c ∈ s, isQueryChar c = true
  fragment : ∀ s ∈ fragment, ∀ c ∈ s, isFragmentChar c = true

/-- The text of these parts. -/
def tailBytes (query fragment : Option Bytes) : Bytes :=
  query.elim [] (63 :: ·) ++ fragment.elim [] (35 :: ·)

theorem query_of_reads (hs : s = .reqQueryStringStart ∨ s = .reqQueryString)
    (h : readsUrl s rest = true) :
    ∃ q fragment, 63 :: rest = tailBytes (some q) fragment ∧ TailParts (some q) fragment := by
  -- behind its first character the machine stays in the query
  have hstay : ∀ {rest}, readsUrl .reqQueryString rest = true →
      ∃ q fragment, 63 :: rest = tailBytes (some q) fragment ∧ TailParts (some q) fragment := by
    intro rest h
    obtain ⟨q, r, rfl, hq, hr, hfirst⟩ := reads_split (fun c hc => (char_query c hc).2) h
    have hquery : ∀ s ∈ some q, ∀ c ∈ s, isQueryChar c = true := by
      rintro _ ⟨⟩
      exact hq
    cases r with
    | nil => exact ⟨q, none, rfl, hquery, by simp⟩
    | cons c r =>
      have hc := hfirst c rfl
      simp only [isQueryChar, Bool.or_eq_false_iff, decide_eq_false_iff_not] at hc
      obtain ⟨hfail, hrest⟩ := readsUrl_cons.mp hr
      have hchar : c = 35 := by
        by_contra hne
        refine hfail ?_
        simp only [parseUrlChar, hc.1, if_neg hc.2, if_neg hne]
        split_ifs <;> first | rfl | contradiction
      subst hchar
      refine ⟨q, some r, rfl, hquery, ?_⟩
      rintro _ ⟨⟩
      exact fragment_of_reads (Or.inl rfl) hrest
  rcases hs with rfl | rfl
  · cases rest with
    | nil => exact ⟨[], none, rfl, by simp, by simp⟩
    | cons c rest =>
      obtain ⟨hfail, hrest⟩ := readsUrl_cons.mp h
      by_cases hc : c = 35
      · subst hc
        refine ⟨[], some rest, rfl, by simp, ?_⟩
        rintro _ ⟨⟩
        exact fragment_of_reads (Or.inl rfl) hrest
      · exact hstay h
  · exact hstay h

/-- The parts of a path and what is behind it. -/
theorem path_of_reads (h : readsUrl .reqPath rest = true) :
    ∃ path query fragment, rest = path ++ tailBytes query fragment ∧
      (∀ c ∈ path, isUrlChar c = true) ∧ TailParts query fragment := by
  obtain ⟨p, r, rfl, hp, hr, hfirst⟩ := reads_split char_path h
  cases r with
  | nil => exact ⟨p, none, none, rfl, hp, by simp, by simp⟩
  | cons c r =>
    have hc := hfirst c rfl
    obtain ⟨hfail, hrest⟩ := readsUrl_cons.mp hr
    by_cases hquery : c = 63
    · subst hquery
      obtain ⟨q, fragment, hq, hparts⟩ := query_of_reads (Or.inl rfl) hrest
      exact ⟨p, some q, fragment, by rw [hq], hp, hparts⟩
    · have hchar : c = 35 := by
        by_contra hne
        refine hfail ?_
        simp only [parseUrlChar, hc, if_neg hquery, if_neg hne]
        split_ifs <;> first | rfl | contradiction
      subst hchar
      refine ⟨p, none, some r, rfl, hp, by simp, ?_⟩
      rintro _ ⟨⟩
      exact fragment_of_reads (Or.inl rfl) hrest

/-- The parts of a server and what is behind it. -/
theorem parts_of_reads (hs : s ∈ serverStates) (h : readsUrl s rest = true) :
    ∃ a path query fragment, rest = a ++ (path ++ tailBytes query fragment) ∧
      (∀ c ∈ a, c ≠ 47 ∧ c ≠ 63) ∧ readsUrl s a = true ∧ (∀ c ∈ path.head?, c = 47) ∧
      (∀ c ∈ path, isUrlChar c = true) ∧ TailParts query fragment ∧
      (fragment.isSome → path ≠ [] ∨ query.isSome) := by
  induction rest generalizing s with
  | nil =>
    exact ⟨[], [], none, none, rfl, by simp, rfl, by simp, by simp, ⟨by simp, by simp⟩, by simp⟩
  | cons c rest ih =>
    obtain ⟨hfail, hrest⟩ := readsUrl_cons.mp h
    by_cases hpath : c = 47
    · subst hpath
      have hchar : parseUrlChar s 47 = .reqPath := by
        simp only [serverStates, List.mem_cons, List.not_mem_nil, or_false] at hs
        rcases hs with rfl | rfl | rfl <;> decide
      rw [hchar] at hrest
      obtain ⟨path, query, fragment, rfl, hp, hparts⟩ := path_of_reads hrest
      exact ⟨[], 47 :: path, query, fragment, rfl, by simp, rfl, by simp,
        List.forall_mem_cons.mpr ⟨by decide, hp⟩, hparts, fun _ => Or.inl (List.cons_ne_nil _ _)⟩
    · by_cases hquery : c = 63
      · subst hquery
        have hchar : parseUrlChar s 63 = .reqQueryStringStart := by
          simp only [serverStates, List.mem_cons, List.not_mem_nil, or_false] at hs
          rcases hs with rfl | rfl | rfl <;> decide
        rw [hchar] at hrest
        obtain ⟨q, fragment, hq, hparts⟩ := query_of_reads (Or.inl rfl) hrest
        exact ⟨[], [], some q, fragment, hq, by simp, rfl, by simp, by simp, hparts,
          fun _ => Or.inr rfl⟩
      · have hchar := char_server c hpath hquery s hs hfail
        obtain ⟨a, path, query, fragment, rfl, ha, hreads, hfirst, hp, hparts, hhashed⟩ :=
          ih (by rw [hchar]; split_ifs <;> decide) hrest
        exact ⟨c :: a, path, query, fragment, rfl,
          List.forall_mem_cons.mpr ⟨⟨hpath, hquery⟩, ha⟩, readsUrl_cons.mpr ⟨hfail, hreads⟩,
          hfirst, hp, hparts, hhashed⟩

/-- A scheme goes up to the server, or the url ends in front of it. -/
theorem scheme_of_reads (h : readsUrl .reqSchema rest = true) :
    ∃ n r, rest = n ++ r ∧ (∀ c ∈ n, isAlpha c = true) ∧
      ((∃ r', r = text "://" ++ r' ∧ readsUrl .reqServerStart r' = true) ∨
        r = [] ∨ r = [58] ∨ r = [58, 47]) := by
  obtain ⟨n, r, rfl, hn, hr, hfirst⟩ := reads_split (fun c hc => (char_scheme c hc).2) h
  refine ⟨n, r, rfl, hn, ?_⟩
  have hcolon : ∀ c r, readsUrl .reqSchema (c :: r) = true → isAlpha c = false → c = 58 := by
    intro c r hr hc
    by_contra hne
    refine (readsUrl_cons.mp hr).1 ?_
    simp only [parseUrlChar, hc, if_neg hne]
    split_ifs <;> first | rfl | contradiction
  have hslash : ∀ s c r, s = .reqSchemaSlash ∨ s = .reqSchemaSlashSlash →
      readsUrl s (c :: r) = true → c = 47 := by
    intro s c r hs hr
    by_contra hne
    refine (readsUrl_cons.mp hr).1 ?_
    rcases hs with rfl | rfl <;> simp only [parseUrlChar, if_neg hne] <;> split_ifs <;> rfl
  rcases r with _ | ⟨c, _ | ⟨d, _ | ⟨e, r⟩⟩⟩
  · exact Or.inr (Or.inl rfl)
  · obtain rfl := hcolon c [] hr (hfirst c rfl)
    exact Or.inr (Or.inr (Or.inl rfl))
  · obtain rfl := hcolon c [d] hr (hfirst c rfl)
    obtain rfl := hslash _ d [] (Or.inl rfl) (readsUrl_cons.mp hr).2
    exact Or.inr (Or.inr (Or.inr rfl))
  · obtain rfl := hcolon c _ hr (hfirst c rfl)
    have hr₁ := (readsUrl_cons.mp hr).2
    obtain rfl := hslash _ d _ (Or.inl rfl) hr₁
    have hr₂ := (readsUrl_cons.mp hr₁).2
    obtain rfl := hslash _ e _ (Or.inr rfl) hr₂
    exact Or.inl ⟨r, rfl, (readsUrl_cons.mp hr₂).2⟩

end Reads

/-! ## The text of a server -/

/-- The characters of a server apart from the at sign. -/
def isServerChar (c : UInt8) : Bool := isUserinfoChar c || c = 91 || c = 93

/-- The characters of the parts of a server are characters of a server, which go on with it. -/
theorem server_chars : ∀ c,
    ((isHostChar c = true → isServerChar c = true) ∧ (isV6Char c = true → isServerChar c = true) ∧
      (isZoneChar c = true → isServerChar c = true) ∧ (isNum c = true → isServerChar c = true)) ∧
    (isServerChar c = true → c ≠ 47 ∧ c ≠ 63 ∧ c ≠ 64 ∧
      parseUrlChar .reqServerStart c = .reqServer ∧ parseUrlChar .reqServer c = .reqServer ∧
        parseUrlChar .reqServerWithAt c = .reqServer) := by
  decide +kernel

theorem isServerChar_of_host (c : UInt8) :
    (isHostChar c = true → isServerChar c = true) ∧ (isV6Char c = true → isServerChar c = true) ∧
      (isZoneChar c = true → isServerChar c = true) ∧ (isNum c = true → isServerChar c = true) :=
  (server_chars c).1

theorem char_serverChar (c : UInt8) : isServerChar c = true → c ≠ 47 ∧ c ≠ 63 ∧ c ≠ 64 ∧
    parseUrlChar .reqServerStart c = .reqServer ∧ parseUrlChar .reqServer c = .reqServer ∧
      parseUrlChar .reqServerWithAt c = .reqServer :=
  (server_chars c).2

section ServerText

variable {a : UrlServer} (ha : a.WellFormed)

include ha

/-- What is behind the name. -/
theorem UrlServer.WellFormed.chars :
    ∀ c ∈ a.host.bytes ++ a.port.elim [] (58 :: ·), isServerChar c = true := by
  intro c hc
  rcases List.mem_append.mp hc with hc | hc
  · have hhost := ha.host
    cases h : a.host with
    | name n =>
      rw [h] at hc hhost
      exact (isServerChar_of_host c).1 (hhost.2 c hc)
    | v6 address zone =>
      rw [h] at hc hhost
      obtain ⟨-, haddress, hz⟩ := hhost
      have hmem : c = 91 ∨ c ∈ address ∨ c ∈ zone.elim [] (37 :: ·) ∨ c = 93 := by
        simpa [HostName.bytes, or_assoc] using hc
      rcases hmem with rfl | hmem | hmem | rfl
      · decide
      · exact (isServerChar_of_host c).2.1 (haddress c hmem)
      · cases zone with
        | none => cases hmem
        | some z =>
          rcases List.mem_cons.mp hmem with rfl | hmem
          · decide
          · exact (isServerChar_of_host c).2.2.1 ((hz z rfl).2 c hmem)
      · decide
  · cases hport : a.port with
    | none =>
      rw [hport] at hc
      cases hc
    | some p =>
      rw [hport] at hc
      rcases List.mem_cons.mp hc with rfl | hc
      · decide
      · exact (isServerChar_of_host c).2.2.2 ((ha.port p hport).2 c hc)

theorem UrlServer.WellFormed.bytes_ne_nil : a.bytes ≠ [] := by
  have hhost : a.host.bytes ≠ [] := by
    have hhost := ha.host
    cases h : a.host with
    | name n =>
      rw [h] at hhost
      exact hhost.1
    | v6 address zone => exact List.cons_ne_nil _ _
  simp [UrlServer.bytes, hhost]

/-- The at sign tells whether there is a name. -/
theorem UrlServer.WellFormed.contains_at : a.bytes.contains 64 = a.userinfo.isSome := by
  have hrest : 64 ∉ a.host.bytes ++ a.port.elim [] (58 :: ·) :=
    fun hmem => (char_serverChar 64 (ha.chars 64 hmem)).2.2.1 rfl
  rw [UrlServer.bytes, List.append_assoc, Bool.eq_iff_iff, List.contains_iff_mem, List.mem_append,
    or_iff_left hrest, UrlServer.info]
  cases a.userinfo <;> simp

theorem UrlServer.WellFormed.noSlash : ∀ c ∈ a.bytes, c ≠ 47 ∧ c ≠ 63 := by
  intro c hc
  rw [UrlServer.bytes, List.append_assoc] at hc
  rcases List.mem_append.mp hc with hc | hc
  · cases hinfo : a.userinfo with
    | none =>
      rw [UrlServer.info, hinfo] at hc
      cases hc
    | some u =>
      rw [UrlServer.info, hinfo] at hc
      rcases List.mem_append.mp hc with hc | hc
      · have hchar : isServerChar c = true := by
          rw [isServerChar, ha.userinfo u hinfo c hc]
          rfl
        exact ⟨(char_serverChar c hchar).1, (char_serverChar c hchar).2.1⟩
      · rw [List.mem_singleton.mp hc]
        decide
  · exact ⟨(char_serverChar c (ha.chars c hc)).1, (char_serverChar c (ha.chars c hc)).2.1⟩

omit ha in
theorem reads_serverChars {s : ParserState} {seg : Bytes} (rest : Bytes) (hs : s ∈ serverStates)
    (hseg : ∀ c ∈ seg, isServerChar c = true) :
    ∃ s', (s' = s ∨ s' = .reqServer) ∧ readsUrl s (seg ++ rest) = readsUrl s' rest := by
  induction seg generalizing s with
  | nil => exact ⟨s, Or.inl rfl, rfl⟩
  | cons c seg ih =>
    obtain ⟨-, -, -, hstart, hserver, hat⟩ := char_serverChar c (hseg c List.mem_cons_self)
    have hchar : parseUrlChar s c = .reqServer := by
      simp only [serverStates, List.mem_cons, List.not_mem_nil, or_false] at hs
      rcases hs with rfl | rfl | rfl <;> assumption
    obtain ⟨s', hs', hreads⟩ := ih (s := .reqServer) (by decide)
      fun d hd => hseg d (List.mem_cons_of_mem _ hd)
    refine ⟨s', Or.inr (hs'.elim id id), ?_⟩
    rw [List.cons_append, readsUrl, hchar, hreads]
    rfl

/-- The first loop gets through a server. -/
theorem UrlServer.WellFormed.reads : readsUrl .reqServerStart a.bytes = true := by
  have hend : ∀ s ∈ serverStates,
      readsUrl s (a.host.bytes ++ a.port.elim [] (58 :: ·)) = true := by
    intro s hs
    obtain ⟨s', -, hreads⟩ := reads_serverChars [] hs ha.chars
    rwa [List.append_nil] at hreads
  rw [UrlServer.bytes, List.append_assoc, UrlServer.info]
  cases hinfo : a.userinfo with
  | none => exact hend _ (by decide)
  | some u =>
    have hu : ∀ c ∈ u, isServerChar c = true := by
      intro c hc
      rw [isServerChar, ha.userinfo u hinfo c hc]
      rfl
    obtain ⟨s', hs', hreads⟩ := reads_serverChars (s := .reqServerStart)
      (64 :: (a.host.bytes ++ a.port.elim [] (58 :: ·))) (by decide) hu
    have hat : parseUrlChar s' 64 = .reqServerWithAt := by
      rcases hs' with rfl | rfl <;> decide
    change readsUrl _ (u ++ [64] ++ _) = true
    rw [List.append_assoc]
    refine hreads.trans ?_
    rw [readsUrl, hat]
    exact hend _ (by decide)

end ServerText

/-! ## The fields of an url -/

/-- A digit is added to a short number. -/
theorem toSize_digit {c : UInt8} {v : ℕ} (hc : isNum c = true) (hv : v < 65536) :
    CInt.toSize (v * 10 + (c.toInt8.toInt - 48)) = 10 * v + (c.toNat - 48) := by
  have hdigit : ∀ c : UInt8, isNum c = true →
      c.toInt8.toInt - 48 = ((c.toNat - 48 : ℕ) : ℤ) ∧ c.toNat - 48 < 10 := by decide +kernel
  obtain ⟨hsub, hlt⟩ := hdigit c hc
  rw [hsub, CInt.toSize]
  omega

/-- The digits are read up to the first value that has more than 16 bits. -/
theorem portValue_eq {s : Bytes} {v : ℕ} (hs : ∀ c ∈ s, isNum c = true) (hv : v < 65536) :
    portValue v s =
      if s.foldl (fun acc c => 10 * acc + (c.toNat - 48)) v < 65536 then
        some (s.foldl (fun acc c => 10 * acc + (c.toNat - 48)) v) else none := by
  induction s generalizing v with
  | nil =>
    rw [List.foldl_nil, if_pos hv]
    rfl
  | cons c s ih =>
    have hgrow : ∀ (s : Bytes) (v : ℕ), v ≤ s.foldl (fun acc c => 10 * acc + (c.toNat - 48)) v := by
      intro s
      induction s with
      | nil => exact fun v => le_rfl
      | cons c s ih => exact fun v => le_trans (by omega) (ih (10 * v + (c.toNat - 48)))
    have hle := hgrow s (10 * v + (c.toNat - 48))
    rw [portValue, List.foldl_cons, toSize_digit (hs c List.mem_cons_self) hv]
    by_cases hlt : 65535 < 10 * v + (c.toNat - 48)
    · rw [if_pos hlt, if_neg (by omega)]
    · rw [if_neg hlt]
      exact ih (fun d hd => hs d (List.mem_cons_of_mem c hd)) (by omega)

theorem portValue_digits {s : Bytes} (hs : ∀ c ∈ s, isNum c = true) : portValue 0 s =
    if decimalValue s < 65536 then some (decimalValue s) else none := by
  rw [portValue_eq hs (by decide), decimalValue]

theorem slice_append (a b c : Bytes) :
    ((a ++ (b ++ c)).drop a.length).take b.length = b := by
  rw [List.drop_left, List.take_left]

namespace UrlText

variable {t : UrlText}

theorem bytes_eq : t.bytes = t.schemeBytes ++ (t.serverBytes ++
    (t.path ++ tailBytes t.query t.fragment)) := by
  simp only [bytes, tailBytes, queryBytes, fragmentBytes, List.append_assoc]

/-- Behind the first loop. -/
theorem parse_of_scan {buf : Bytes} {scan : UrlScan} (hne : buf ≠ [])
    (hscan : scanUrl 0 buf ⟨.reqSpacesBeforeUrl, none, false, fun _ => none⟩ = some scan) :
    httpParserParseUrl buf false =
      if (scan.fields .schema).isSome && (scan.fields .host).isNone then none
      else (serverFields buf scan).bind (withPort buf) := by
  rw [httpParserParseUrl, if_neg (by simpa using hne)]
  change (scanUrl 0 buf ⟨.reqSpacesBeforeUrl, none, false, fun _ => none⟩).bind _ = _
  rw [hscan]
  rfl

/-- An url without a server. -/
theorem parse_path (h : t.WellFormed) (hserver : t.server = none)
    (hlen : t.bytes.length < 65536) :
    httpParserParseUrl t.bytes false = some t.fields := by
  have hbytes : t.bytes = t.path ++ tailBytes t.query t.fragment := by
    simp [bytes_eq, schemeBytes, serverBytes, hserver]
  rw [hbytes] at hlen ⊢
  have hpath : t.path ≠ [] := h.begun hserver
  have hfirst : ∀ c ∈ t.path.head?, parseUrlChar .reqSpacesBeforeUrl c = .reqPath := by
    intro c hc
    rcases h.first c hc with rfl | ⟨rfl, -⟩ <;> decide
  rw [tailBytes, List.length_append, List.length_append] at hlen
  obtain ⟨scan, hscan, -, hfields⟩ := scan_path .reqSpacesBeforeUrl none false
    (fun _ => none) 0 hfirst h.path
    (fun s hs => ⟨h.query s hs, fun hnil => absurd hnil hpath⟩)
    (fun s hs => ⟨h.fragment s hs, Or.inl hpath⟩) (by decide) ⟨rfl, rfl, rfl⟩ (by omega)
  have hdata : scan.fields = t.fieldData := by
    rw [hfields]
    ext1 uf
    cases uf <;> simp [fieldData, pathPos, queryPos, fragmentPos, serverPos, schemeBytes,
      serverBytes, queryBytes, hserver]
  have hnone : ∀ uf, uf = .schema ∨ uf = .host ∨ uf = .port → t.fieldData uf = none := by
    rintro uf (rfl | rfl | rfl) <;> simp [fieldData, hserver]
  have hport : t.port = none := by rw [port, hserver]; rfl
  rw [tailBytes, parse_of_scan (by simp [hpath]) hscan, hdata, hnone .schema (by simp),
    if_neg (by simp), serverFields, hdata, hnone .host (by simp), if_neg (by simp),
    Option.bind_some, withPort, hnone .port (by simp), fields, hport]
  rfl

/-- The fields behind the first loop: the host is the whole server. -/
theorem scan_bytes {n : Bytes} {a : UrlServer} (h : t.WellFormed)
    (hserver : t.server = some (n, a)) (hlen : t.bytes.length < 65536) :
    ∃ scan, scanUrl 0 t.bytes ⟨.reqSpacesBeforeUrl, none, false, fun _ => none⟩ = some scan ∧
      scan.foundAt = a.userinfo.isSome ∧
      scan.fields .host = some (t.serverPos, a.bytes.length) ∧
      (∀ uf, serverField uf = false → scan.fields uf = t.fieldData uf) ∧
      scan.fields .userinfo = none ∧ scan.fields .port = none := by
  obtain ⟨hne, hn⟩ : n ≠ [] ∧ ∀ c ∈ n, isAlpha c = true := h.scheme _ hserver
  have ha : a.WellFormed := h.server _ hserver
  have hscheme : t.schemeBytes = n ++ text "://" := by rw [schemeBytes, hserver]; rfl
  have hbytes : t.serverBytes = a.bytes := by rw [serverBytes, hserver]; rfl
  have hpos : t.serverPos = n.length + 3 := by
    rw [serverPos, hscheme, List.length_append]
    rfl
  have htotal : t.bytes.length = t.serverPos + a.bytes.length + t.path.length +
      (t.query.elim [] (63 :: ·)).length + (t.fragment.elim [] (35 :: ·)).length := by
    simp only [bytes_eq, hbytes, List.length_append, tailBytes, serverPos]
    omega
  obtain ⟨s', hs', hscan⟩ := scan_server (some .schema)
    (Function.update (fun _ => none) .schema (some (0, n.length))) (n.length + 3)
    ha.bytes_ne_nil ha.noSlash ha.reads (by decide) (by omega)
  have hfirst : ∀ c ∈ t.path.head?, parseUrlChar s' c = .reqPath := by
    intro c hc
    rcases h.first c hc with rfl | ⟨-, hnone⟩
    · simp only [serverStates, List.mem_cons, List.not_mem_nil, or_false] at hs'
      rcases hs' with rfl | rfl | rfl <;> decide
    · rw [hserver] at hnone
      cases hnone
  have hquery : parseUrlChar s' 63 = .reqQueryStringStart := by
    simp only [serverStates, List.mem_cons, List.not_mem_nil, or_false] at hs'
    rcases hs' with rfl | rfl | rfl <;> decide
  obtain ⟨scan, hscan', hfound, hfields⟩ := scan_path s' (some .host)
    (a.bytes.contains 64)
    (Function.update (Function.update (fun _ => none) .schema (some (0, n.length))) .host
      (some (n.length + 3, a.bytes.length)))
    (n.length + 3 + a.bytes.length) hfirst h.path
    (fun s hs => ⟨h.query s hs, fun _ => hquery⟩)
    (fun s hs => ⟨h.fragment s hs, h.hashed (by rw [Option.mem_def.mp hs]; rfl)⟩) (by decide)
    ⟨rfl, rfl, rfl⟩ (by omega)
  refine ⟨scan, ?_, ?_, ?_, ?_, ?_, ?_⟩
  · rw [bytes_eq, hscheme, hbytes, List.append_assoc, scan_scheme hne hn (by omega),
      scanUrl_append, hscan, Option.bind_some]
    exact hscan'
  · rw [hfound, ha.contains_at]
  · rw [hfields, hpos]
    rfl
  · intro uf huf
    rw [hfields]
    have hlength : t.serverBytes.length = a.bytes.length := by rw [hbytes]
    cases uf <;> cases huf <;> simp [fieldData, pathPos, queryPos, fragmentPos, hpos, queryBytes,
      hserver, hlength, at_, hne]
  · rw [hfields]
    rfl
  · rw [hfields]
    rfl

/-- An url with a server is accepted if its port has 16 bits. -/
theorem parse_server {n : Bytes} {a : UrlServer} (h : t.WellFormed)
    (hserver : t.server = some (n, a)) (hlen : t.bytes.length < 65536) :
    httpParserParseUrl t.bytes false = if t.PortFits then some t.fields else none := by
  have ha : a.WellFormed := h.server _ hserver
  obtain ⟨scan, hscan, hfound, hhost, hother, hinfo, hport⟩ := scan_bytes h hserver hlen
  have hbytes : t.serverBytes = a.bytes := by rw [serverBytes, hserver]; rfl
  have hslice : (t.bytes.drop t.serverPos).take a.bytes.length = a.bytes := by
    rw [bytes_eq, hbytes]
    exact slice_append _ _ _
  have hend : t.serverPos + a.bytes.length < 65536 := by
    rw [bytes_eq, hbytes, List.length_append, List.length_append] at hlen
    unfold serverPos
    omega
  obtain ⟨s, hs, hscanHost⟩ := scanHost_server
    (Function.update scan.fields .host (some (t.serverPos, 0))) t.serverPos ha
    (Function.update_self ..) ⟨hinfo, hport⟩ hend
  have hfields : serverFields t.bytes scan = some t.fieldData := by
    rw [serverFields, hhost, if_pos Option.isSome_some, httpParseHost, hhost]
    simp only [hslice, hfound, hscanHost, hs, if_true, Option.some.injEq]
    ext1 uf
    cases huf : serverField uf with
    | false =>
      obtain ⟨h₁, h₂, h₃⟩ := ne_of_serverField huf
      rw [Function.update_of_ne h₂, Function.update_of_ne h₁, Function.update_of_ne h₃,
        Function.update_of_ne h₁, hother uf huf]
    | true => cases uf <;> cases huf <;> simp [fieldData, hserver, hostPos, portPos]
  have hhostData : (t.fieldData .host).isSome = true := by
    have htext : a.host.text ≠ [] := by
      have hwf := ha.host
      cases hname : a.host with
      | name n =>
        rw [hname] at hwf
        exact hwf.1
      | v6 address zone =>
        rw [hname] at hwf
        simp [HostName.text, hwf.1]
    simp [fieldData, hserver, at_, htext]
  have hne : t.bytes ≠ [] := by
    rw [bytes_eq, hbytes]
    simp [ha.bytes_ne_nil]
  rw [parse_of_scan hne hscan, hhost, hfields, Option.bind_some]
  simp only [Option.isNone_some, Bool.and_false, Bool.false_eq_true, if_false]
  cases hp : a.port with
  | none =>
    have htport : t.port = none := by rw [port, hserver]; exact hp
    have hnone : t.fieldData .port = none := by simp [fieldData, hserver, hp]
    have hfits : t.PortFits := by simp [PortFits, htport]
    rw [if_pos hfits, withPort, hnone, fields, htport]
    rfl
  | some p =>
    obtain ⟨hpne, hpdigits⟩ := ha.port p hp
    have htport : t.port = some p := by rw [port, hserver]; exact hp
    have hdata : t.fieldData .port = some (t.portPos a, p.length) := by
      simp [fieldData, hserver, hp, at_, hpne]
    have hdigitsAt : (t.bytes.drop (t.portPos a)).take p.length = p := by
      have hsplit : t.bytes = (t.schemeBytes ++ a.info ++ a.host.bytes ++ [58]) ++
          (p ++ (t.path ++ tailBytes t.query t.fragment)) := by
        rw [bytes_eq, hbytes, UrlServer.bytes, hp]
        simp
      have hpos : t.portPos a =
          (t.schemeBytes ++ a.info ++ a.host.bytes ++ [58]).length := by
        simp only [portPos, serverPos, List.length_append, List.length_singleton]
      rw [hsplit, hpos]
      exact slice_append _ _ _
    have hfits : t.PortFits ↔ decimalValue p < 65536 := by simp [PortFits, htport]
    rw [withPort, hdata]
    simp only [hdigitsAt, portValue_digits hpdigits, hfits]
    split_ifs with hlt
    · rw [Option.map_some, u16_of_lt hlt, fields, htport]
      rfl
    · rfl

/-- An url of this shape is accepted unless its port is too large. -/
theorem parse_bytes (h : t.WellFormed) (hlen : t.bytes.length < 65536) :
    httpParserParseUrl t.bytes false = if t.PortFits then some t.fields else none := by
  cases hserver : t.server with
  | none =>
    have hport : t.port = none := by rw [port, hserver]; rfl
    rw [if_pos (by simp [PortFits, hport])]
    exact parse_path h hserver hlen
  | some p => exact parse_server h hserver hlen

end UrlText

/-! ## The urls that are accepted -/

/-- What is read of a server in front of a path. -/
theorem scan_parts {n a path : Bytes} {query fragment : Option Bytes} (hne : n ≠ [])
    (hn : ∀ c ∈ n, isAlpha c = true) (ha : ∀ c ∈ a, c ≠ 47 ∧ c ≠ 63)
    (hreads : readsUrl .reqServerStart a = true) (hfirst : ∀ c ∈ path.head?, c = 47)
    (hpath : ∀ c ∈ path, isUrlChar c = true) (hparts : TailParts query fragment)
    (hhashed : fragment.isSome → path ≠ [] ∨ query.isSome)
    (hlen : (n ++ (text "://" ++ (a ++ (path ++ tailBytes query fragment)))).length < 65536) :
    ∃ scan, scanUrl 0 (n ++ (text "://" ++ (a ++ (path ++ tailBytes query fragment))))
        ⟨.reqSpacesBeforeUrl, none, false, fun _ => none⟩ = some scan ∧
      (scan.fields .schema).isSome = true ∧ scan.foundAt = a.contains 64 ∧
      scan.fields .host = UrlText.at_ (n.length + 3) a := by
  have hscheme : (text "://").length = 3 := rfl
  rw [tailBytes] at hlen ⊢
  simp only [List.length_append, hscheme] at hlen
  rw [scan_scheme hne hn (by omega), scanUrl_append]
  have hslash : ∀ s ∈ serverStates, parseUrlChar s 47 = .reqPath ∧
      parseUrlChar s 63 = .reqQueryStringStart := by decide
  by_cases hnil : a = []
  · subst hnil
    obtain ⟨scan, hscan, hfound, hfields⟩ := scan_path .reqServerStart (some .schema) false
      (Function.update (fun _ => none) .schema (some (0, n.length))) (n.length + 3)
      (fun c hc => by rw [hfirst c hc]; decide) hpath
      (fun s hs => ⟨hparts.query s hs, fun _ => by decide⟩)
      (fun s hs => ⟨hparts.fragment s hs, hhashed (by rw [Option.mem_def.mp hs]; rfl)⟩) (by decide)
      ⟨rfl, rfl, rfl⟩ (by omega)
    refine ⟨scan, hscan, ?_, hfound, ?_⟩
    · rw [hfields]
      rfl
    · rw [hfields]
      rfl
  · obtain ⟨s', hs', hscan⟩ := scan_server (some .schema)
      (Function.update (fun _ => none) .schema (some (0, n.length))) (n.length + 3) hnil ha hreads
      (by decide) (by omega)
    rw [hscan, Option.bind_some]
    obtain ⟨scan, hscan', hfound, hfields⟩ := scan_path s' (some .host) (a.contains 64)
      (Function.update (Function.update (fun _ => none) .schema (some (0, n.length)))
        .host (some (n.length + 3, a.length))) (n.length + 3 + a.length)
      (fun c hc => by rw [hfirst c hc]; exact (hslash s' hs').1) hpath
      (fun s hs => ⟨hparts.query s hs, fun _ => (hslash s' hs').2⟩)
      (fun s hs => ⟨hparts.fragment s hs, hhashed (by rw [Option.mem_def.mp hs]; rfl)⟩) (by decide)
      ⟨rfl, rfl, rfl⟩ (by omega)
    refine ⟨scan, hscan', ?_, hfound, ?_⟩
    · rw [hfields]
      rfl
    · have hat : UrlText.at_ (n.length + 3) a = some (n.length + 3, a.length) := if_neg hnil
      rw [hfields, hat]
      rfl

/-- An url that ends in front of its server has no host. -/
theorem scan_unended {n r : Bytes} (hne : n ≠ []) (hn : ∀ c ∈ n, isAlpha c = true)
    (hr : r = [] ∨ r = [58] ∨ r = [58, 47]) (hlen : (n ++ r).length < 65536) :
    ∃ scan, scanUrl 0 (n ++ r) ⟨.reqSpacesBeforeUrl, none, false, fun _ => none⟩ = some scan ∧
      (scan.fields .schema).isSome = true ∧ scan.fields .host = none := by
  cases n with
  | nil => exact absurd rfl hne
  | cons c n =>
    rw [List.length_append] at hlen
    have hstay : ∀ c ∈ n, parseUrlChar .reqSchema c = .reqSchema :=
      fun d hd => (char_scheme d (hn d (List.mem_cons_of_mem _ hd))).2
    rw [scanUrl_append, scan_field (char_scheme c (hn c List.mem_cons_self)).1 rfl (by decide) hstay
      (by decide) (by omega), Option.bind_some]
    rcases hr with rfl | rfl | rfl
    · exact ⟨_, rfl, rfl, rfl⟩
    · rw [scan_delimiter (s := .reqSchemaSlash) (by decide) rfl]
      exact ⟨_, rfl, rfl, rfl⟩
    · rw [scan_delimiter (s := .reqSchemaSlash) (by decide) rfl,
        scan_delimiter (s := .reqSchemaSlashSlash) (by decide) rfl]
      exact ⟨_, rfl, rfl, rfl⟩

/-- The server that the second loop accepts. -/
theorem server_of_serverFields {buf a : Bytes} {scan : UrlScan} {fields : FieldData} {pos : ℕ}
    (hhost : scan.fields .host = some (pos, a.length)) (hat : (buf.drop pos).take a.length = a)
    (hfields : serverFields buf scan = some fields) :
    ∃ server : UrlServer, a = server.bytes ∧ server.WellFormed := by
  rw [serverFields, hhost, if_pos Option.isSome_some, httpParseHost, hhost] at hfields
  simp only [hat] at hfields
  split at hfields
  · cases hfields
  · next scan' hscan =>
    split_ifs at hfields with hend
    have hstart : (if scan.foundAt then HostState.userinfoStart else .hostStart) ≠ .dead := by
      split_ifs <;> decide
    obtain ⟨server, ha, -, hinfo, hname, hport⟩ :=
      server_of_endsWell (scanHost_endsWell hstart hscan hend)
    exact ⟨server, ha, hinfo, hname, hport⟩

/-- An url is the text of its parts. -/
theorem url_of_parse {buf : Bytes} {u : HttpParserUrl} (hlen : buf.length < 65536)
    (h : httpParserParseUrl buf false = some u) : ∃ t : UrlText, t.WellFormed ∧ t.bytes = buf := by
  have hne : buf ≠ [] := by
    rintro rfl
    cases h
  rw [httpParserParseUrl, if_neg (by simpa using hne)] at h
  obtain ⟨scan, hscan, h⟩ := Option.bind_eq_some_iff.mp h
  change scanUrl 0 buf ⟨.reqSpacesBeforeUrl, none, false, fun _ => none⟩ = _ at hscan
  have hreads : readsUrl .reqSpacesBeforeUrl buf = true := by
    have hsome := congrArg Option.isSome hscan
    rwa [isSome_scanUrl] at hsome
  cases buf with
  | nil => exact absurd rfl hne
  | cons c rest =>
    obtain ⟨hfail, hrest⟩ := readsUrl_cons.mp hreads
    by_cases hslash : c = 47 ∨ c = 42
    · -- the url begins with its path
      have hchar : parseUrlChar .reqSpacesBeforeUrl c = .reqPath := by
        rcases hslash with rfl | rfl <;> decide
      rw [hchar] at hrest
      obtain ⟨path, query, fragment, rfl, hpath, hparts⟩ := path_of_reads hrest
      have hne : c :: path ≠ [] := List.cons_ne_nil c path
      refine ⟨⟨none, c :: path, query, fragment⟩, ⟨by simp, by simp, ?_, ?_, hparts.query,
        hparts.fragment, fun _ => hne, fun _ => Or.inl hne⟩, ?_⟩
      · rintro _ ⟨⟩
        exact hslash.imp id fun hc => ⟨hc, rfl⟩
      · refine List.forall_mem_cons.mpr ⟨?_, hpath⟩
        rcases hslash with rfl | rfl <;> decide
      · simp [UrlText.bytes_eq, UrlText.schemeBytes, UrlText.serverBytes]
    · have halpha : isAlpha c = true := by
        by_contra hc
        refine hfail ?_
        simp only [not_or] at hslash
        simp only [parseUrlChar, if_neg hc]
        split_ifs <;> first | rfl | simp_all
      rw [(char_scheme c halpha).1] at hrest
      obtain ⟨n, r, rfl, hn, hcases⟩ := scheme_of_reads hrest
      have hname : ∀ d ∈ c :: n, isAlpha d = true := List.forall_mem_cons.mpr ⟨halpha, hn⟩
      rw [← List.cons_append] at hlen hscan
      rcases hcases with ⟨r', rfl, hreads'⟩ | hr
      · obtain ⟨a, path, query, fragment, rfl, ha, hareads, hfirst, hpath, hparts, hhashed⟩ :=
          parts_of_reads (by decide) hreads'
        obtain ⟨scan', hscan', hschema, hfound, hhost⟩ := scan_parts (List.cons_ne_nil c n) hname ha
          hareads hfirst hpath hparts hhashed hlen
        obtain rfl := Option.some.inj (hscan.symm.trans hscan')
        by_cases hnil : a = []
        · rw [hschema, hhost, UrlText.at_, if_pos hnil] at h
          cases h
        · rw [UrlText.at_, if_neg hnil] at hhost
          rw [hhost, Option.isNone_some, Bool.and_false, if_neg (by decide)] at h
          obtain ⟨fields, hfields, -⟩ := Option.bind_eq_some_iff.mp h
          have hslice : ((c :: n ++ (text "://" ++ (a ++ (path ++ tailBytes query fragment)))).drop
              ((c :: n).length + 3)).take a.length = a := by
            have hpos : (c :: n).length + 3 = (c :: n ++ text "://").length := by
              rw [List.length_append]
              rfl
            rw [hpos, ← List.append_assoc]
            exact slice_append _ _ _
          obtain ⟨server, rfl, hserver⟩ := server_of_serverFields hhost hslice hfields
          refine ⟨⟨some (c :: n, server), path, query, fragment⟩, ⟨?_, ?_, ?_, hpath, hparts.query,
            hparts.fragment, ?_, hhashed⟩, ?_⟩
          · rintro _ ⟨⟩
            exact ⟨List.cons_ne_nil c n, hname⟩
          · rintro _ ⟨⟩
            exact hserver
          · exact fun d hd => Or.inl (hfirst d hd)
          · rintro ⟨⟩
          · simp [UrlText.bytes_eq, UrlText.schemeBytes, UrlText.serverBytes]
      · obtain ⟨scan', hscan', hschema, hhost⟩ := scan_unended (List.cons_ne_nil c n) hname hr hlen
        obtain rfl := Option.some.inj (hscan.symm.trans hscan')
        rw [hschema, hhost] at h
        cases h

/-- **The accepted urls**, where no server alone is asked for (`is_connect` is 0). An url of less
than 65536 bytes is accepted just when it is the text of well-formed parts whose port has 16 bits,
and the fields are these parts. -/
theorem httpParserParseUrl_iff (buf : Bytes) (u : HttpParserUrl) (hlen : buf.length < 65536) :
    httpParserParseUrl buf false = some u ↔
      ∃ t : UrlText, t.WellFormed ∧ t.PortFits ∧ t.bytes = buf ∧ u = t.fields := by
  constructor
  · intro h
    obtain ⟨t, ht, rfl⟩ := url_of_parse hlen h
    rw [UrlText.parse_bytes ht hlen] at h
    split_ifs at h with hfits
    exact ⟨t, ht, hfits, rfl, (Option.some.inj h).symm⟩
  · rintro ⟨t, ht, hfits, rfl, rfl⟩
    rw [UrlText.parse_bytes ht hlen, if_pos hfits]

/-- The url `h://k:8/?`: an empty query is no field. -/
theorem httpParserParseUrl_iff_server :
    httpParserParseUrl [104, 58, 47, 47, 107, 58, 56, 47, 63] false = some (UrlText.fields
      ⟨some ([104], ⟨none, .name [107], some [56]⟩), [47], some [], none⟩) := by
  refine (httpParserParseUrl_iff _ _ (by decide)).mpr
    ⟨⟨some ([104], ⟨none, .name [107], some [56]⟩), [47], some [], none⟩, ?_, ?_, by decide, rfl⟩
  · refine ⟨?_, ?_, ?_, ?_, ?_, by simp, by simp, by simp⟩
    · rintro _ ⟨⟩
      exact ⟨List.cons_ne_nil _ _, List.forall_mem_singleton.mpr rfl⟩
    · rintro _ ⟨⟩
      refine ⟨by simp, ⟨List.cons_ne_nil _ _, List.forall_mem_singleton.mpr rfl⟩, ?_⟩
      rintro _ ⟨⟩
      exact ⟨List.cons_ne_nil _ _, List.forall_mem_singleton.mpr rfl⟩
    · rintro _ ⟨⟩
      exact Or.inl rfl
    · exact List.forall_mem_singleton.mpr rfl
    · rintro _ ⟨⟩
      exact List.forall_mem_nil _
  · rintro _ ⟨⟩
    decide

end Kimserver
