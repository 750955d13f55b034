import SqueezeboxConnect.PlayerRuns

/-!
# Three guarantees of the player

Over every run from a new player: the state stays valid, the stored request id
is the announced one after each load, and a request ends at most once between
two loads. Each of them depends on what the decoder answers, and the condition
under which it holds is stated on the state and the command before the step.
-/

namespace PlayerGuarantees

open AudioDecoder PlayerThread PlayerInternal Outcomes Runs PlayerLoads PlayerRuns

variable {Uri D S : Type}

section Radio

/-- A packet writer that releases the packets of a page when the page ends. -/
structure PageWriter where
  page : List UInt8
  released : List UInt8

instance : OggBackend PageWriter where
  writePacket w data _ info _ :=
    match info with
    | .normalPacket => (.ok (), { w with page := w.page ++ data })
    | _ => (.ok (), ⟨[], w.released ++ w.page ++ data⟩)
  inner w := w.released
  clearInner w := { w with released := [] }
  positionPcmToMs gp := (gp * 1000 / 44100).toUInt32

/-- The pipe to the bridge, as long as the bridge reads it. -/
structure PipeSink where

instance : Sink PipeSink where
  start s := (.ok (), s)
  stop s := (.ok (), s)
  write s _ := (.ok (), s)

abbrev RadioDecoder := PassthroughDecoder PageWriter

/-- A new player in passthrough mode. -/
def radio : PlayerInternal String RadioDecoder PipeSink :=
  initial ⟨true, true, none, id⟩ ⟨⟩ 0

/-- A track as its loader hands it over, before its first packet. -/
def loadedTrack (rdr : List (Except OggReadError Packet)) :
    PlayerLoadedTrackData String RadioDecoder where
  decoder := ⟨rdr, ⟨[], []⟩, false, false, 0, 7, [1], [3], [5]⟩
  streamLoaderController := ⟨false⟩
  audioItem := ⟨"spotify:track:a", 1000, false⟩
  bytesPerSecond := 20000
  durationMs := 1000
  streamPositionMs := 0
  isExplicit := false

def atOnce (phase : Phase String RadioDecoder) : Input String RadioDecoder :=
  ⟨⟨0, true, true⟩, phase⟩

def oneSecond : Packet := ⟨[0], 44100, true, true⟩

def loadCommand : Input String RadioDecoder :=
  atOnce (.command (.load "spotify:track:a" true 0))

/-- The track is loaded, its loader is ready, and the first packet is asked for. -/
def firstPacket (rdr : List (Except OggReadError Packet)) : List (Input String RadioDecoder) :=
  [loadCommand, atOnce (.loader (.ready (loadedTrack rdr))), atOnce .packet]

end Radio

variable {p : PlayerInternal Uri D S} {input : Input Uri D}
  {o : Process Uri D S (PlayerInternal Uri D S)} {q : PlayerInternal Uri D S}

section Validity

/-- The player has a state, and no process ended for the lack of one. An exit
on a failing sink is not about the state. -/
def Sound (o : Process Uri D S (PlayerInternal Uri D S)) : Prop :=
  Yields o (fun p => p.state.isInvalid = false)
    (fun e => e.reason = .sinkStop ∨ e.player.state.isInvalid = false)

instance (o : Process Uri D S (PlayerInternal Uri D S)) : Decidable (Sound o) :=
  match o with
  | .ok p => inferInstanceAs (Decidable (p.state.isInvalid = false))
  | .error e =>
    inferInstanceAs (Decidable (e.reason = .sinkStop ∨ e.player.state.isInvalid = false))

variable [DecidableEq Uri] [Decoder D] [Sink S]

def StaysValid (start : PlayerInternal Uri D S) (inputs : List (Input Uri D)) : Prop :=
  ∀ front back, inputs = front ++ back → Sound (run step (.ok start) front)

/-- A load of the track that just ended, when its decoder cannot go back. -/
def lostReload (p : PlayerInternal Uri D S) (input : Input Uri D) : Bool :=
  match input.phase with
  | .command (.load trackId _ positionMs) => reachesLoad p && reloadFails p trackId positionMs
  | _ => false

theorem phaseStep_load (p : PlayerInternal Uri D S) (env : Env) (trackId : Uri) (play : Bool)
    (positionMs : UInt32) :
    Yields (phaseStep p ⟨env, .command (.load trackId play positionMs)⟩)
      (LoadedFrom p trackId none positionMs) (EndsAnnounced p none) :=
  yields_bind _ (handleCommandLoad_spec p env trackId none play positionMs) (fun _ hr => hr)

theorem phaseStep_load_returns (p : PlayerInternal Uri D S) (env : Env) (trackId : Uri)
    (play : Bool) (positionMs : UInt32) (reaches : reachesLoad p = true)
    (fails : reloadFails p trackId positionMs = true ∨ reuseFails p trackId positionMs = true) :
    ∃ q, phaseStep p ⟨env, .command (.load trackId play positionMs)⟩ = .ok q ∧
      LoadedFrom p trackId none positionMs q := by
  obtain ⟨r, hr⟩ := handleCommandLoad_returns p env trackId none play positionMs reaches fails
  have spec := handleCommandLoad_spec p env trackId none play positionMs
  rw [hr] at spec
  refine ⟨r.1, ?_, spec⟩
  simp only [phaseStep, handleCommand, hr]
  rfl

theorem lostReload_invalid (lost : lostReload p input = true) :
    ∃ q, phaseStep p input = .ok q ∧ q.state = .invalid := by
  obtain ⟨env, phase⟩ := input
  cases phase with
  | command cmd =>
    cases cmd with
    | load trackId play positionMs =>
      obtain ⟨reaches, fails⟩ := Bool.and_eq_true_iff.mp lost
      obtain ⟨q, hq, loaded⟩ := phaseStep_load_returns p env trackId play positionMs reaches
        (Or.inl fails)
      exact ⟨q, hq, loaded.reload fails⟩
    | _ => cases lost
  | _ => cases lost

/-- A load that returns was not stopped by the sink. -/
theorem reachesLoad_of_returned {env : Env} {trackId : Uri} {play : Bool} {positionMs : UInt32}
    (returned : phaseStep p ⟨env, .command (.load trackId play positionMs)⟩ = .ok q) :
    reachesLoad p = true := by
  have stops := stopBeforeLoad_returns_iff (p.announce none) play
  cases h : stopBeforeLoad (p.announce none) play with
  | ok q => rw [h] at stops; exact stops.symm
  | error e =>
    simp only [phaseStep, handleCommand, handleCommandLoad, h] at returned
    cases returned

theorem phaseStep_sound (valid : p.state.isInvalid = false) (kept : lostReload p input = false) :
    Sound (phaseStep p input) := by
  by_cases load : isLoad input = true
  · obtain ⟨env, phase⟩ := input
    cases phase with
    | command cmd =>
      cases cmd with
      | load trackId play positionMs =>
        have spec := phaseStep_load p env trackId play positionMs
        cases hq : phaseStep p ⟨env, .command (.load trackId play positionMs)⟩ with
        | error e => rw [hq] at spec; exact Or.inl spec.1
        | ok q =>
          rw [hq] at spec
          have noReload : reloadFails p trackId positionMs = false := by
            simpa [lostReload, reachesLoad_of_returned hq] using kept
          exact loaded_valid spec noReload valid
      | _ => cases load
    | _ => cases load
  · have notLoad : isLoad input = false := by simpa using load
    exact yields_mono (phaseStep_spec p input notLoad) (fun q hq => hq.valid valid)
      (fun e he => he.valid valid)

theorem step_sound (sound : Sound o) (kept : ∀ p, o = .ok p → lostReload p input = false) :
    Sound (step o input) := by
  cases o with
  | error e => exact sound
  | ok p => exact phaseStep_sound sound (kept p rfl)

/-- The state stays valid in exactly the runs without a lost reload. -/
theorem staysValid_iff (config : PlayerConfig) (sink : S) (now : Nat)
    (inputs : List (Input Uri D)) :
    StaysValid (initial config sink now) inputs ↔
      Along step (fun o input => ∀ p, o = .ok p → lostReload p input = false)
        (.ok (initial config sink now)) inputs := by
  constructor
  · intro valid
    rw [along_iff]
    rintro front input back rfl p hp
    by_contra lost
    rw [Bool.not_eq_false] at lost
    obtain ⟨q, hq, invalid⟩ := lostReload_invalid lost
    have sound := valid (front ++ [input]) back (by simp)
    rw [run_append, hp, run_cons, run_nil] at sound
    have returned : step (.ok p) input = .ok q := hq
    rw [returned] at sound
    have : q.state.isInvalid = false := sound
    rw [invalid] at this
    cases this
  · rintro good front back rfl
    rw [along_append] at good
    exact run_invariant (fun _ _ sound kept => step_sound sound kept)
      (show Sound (.ok (initial config sink now)) from rfl) good.1

/-- The track plays to its end and is loaded again at position zero. -/
def reloadedTrack : List (Input String RadioDecoder) :=
  firstPacket [.ok oneSecond] ++ [atOnce .packet, loadCommand]

theorem reloadedTrack_invalid : ¬ StaysValid radio reloadedTrack := by
  intro valid
  have sound := valid reloadedTrack [] (List.append_nil _).symm
  revert sound
  decide

end Validity

section Agreement

def lastAnnounced (events : List (PlayerEvent Uri)) : Option UInt64 :=
  (events.filterMap announcedId).getLast?

/-- The stored request id, if there is one, is the announced one. -/
def Agrees (p : PlayerInternal Uri D S) : Prop :=
  ∀ id, p.state.playRequestId = some id → lastAnnounced p.events = some id

/-- The steps that call `handle_command_load`. -/
def callsLoad (p : PlayerInternal Uri D S) (input : Input Uri D) : Bool :=
  match input.phase with
  | .command (.load ..) => true
  | .command (.seek _) =>
    match p.state with
    | .loading .. => true
    | _ => false
  | _ => false

theorem lastAnnounced_append (events : List (PlayerEvent Uri)) (id : UInt64)
    {es : List (PlayerEvent Uri)} (quiet : ∀ e ∈ es, Quiet e) :
    lastAnnounced (events ++ .playRequestIdChanged id :: es) = some id := by
  have silent : es.filterMap announcedId = [] := by
    rw [List.filterMap_eq_nil_iff]
    exact fun e hmem => (quiet e hmem).2
  simp [lastAnnounced, List.filterMap_append, announcedId, silent]

variable [DecidableEq Uri] [Decoder D] [Sink S]

def RequestsAgree (start : PlayerInternal Uri D S) (inputs : List (Input Uri D)) : Prop :=
  ∀ front input back p q, inputs = front ++ input :: back →
    run step (.ok start) front = .ok p → callsLoad p input = true →
    phaseStep p input = .ok q → Agrees q

/-- A load of a track that is playing, paused or preloaded, whose decoder
cannot seek, while another request id is stored. -/
def staleLoad (p : PlayerInternal Uri D S) (input : Input Uri D) : Bool :=
  match input.phase with
  | .command (.load trackId _ positionMs) =>
    reachesLoad p && reuseFails p trackId positionMs &&
      match p.state.playRequestId with
      | some id => id != p.playRequestIdGenerator
      | none => false
  | _ => false

omit [Sink S] in
/-- After a load the stored id is the announced one, unless the load was given
up half way: then it is the one from before. -/
theorem loaded_agrees {trackId : Uri} {option : Option UInt64} {positionMs : UInt32}
    (h : LoadedFrom p trackId option positionMs q) (stale : reuseFails p trackId positionMs = true →
      ∀ id, p.state.playRequestId = some id → id = p.requestId option) : Agrees q := by
  intro id hid
  obtain ⟨es, he, quiet⟩ := h.events_eq
  rw [he, lastAnnounced_append _ _ quiet]
  by_cases reload : reloadFails p trackId positionMs = true
  · rw [h.reload reload] at hid; cases hid
  by_cases invalid : p.state.isInvalid = true
  · have : p.state = .invalid := by
      cases hs : p.state with
      | invalid => rfl
      | _ => rw [hs] at invalid; cases invalid
    rw [h.invalid this] at hid; cases hid
  by_cases reuse : reuseFails p trackId positionMs = true
  · rw [(h.reuse reuse).1] at hid
    rw [stale reuse id hid]
  · have fresh := h.fresh (by simpa using reload) (by simpa using reuse) (by simpa using invalid)
    exact fresh.symm.trans hid

/-- A stale load returns with the old id under a newly announced one. -/
theorem staleLoad_disagrees (stale : staleLoad p input = true) :
    callsLoad p input = true ∧ ∃ q, phaseStep p input = .ok q ∧ ¬ Agrees q := by
  obtain ⟨env, phase⟩ := input
  cases phase with
  | command cmd =>
    cases cmd with
    | load trackId play positionMs =>
      refine ⟨rfl, ?_⟩
      simp only [staleLoad, Bool.and_eq_true] at stale
      obtain ⟨⟨reaches, fails⟩, other⟩ := stale
      obtain ⟨q, hq, loaded⟩ := phaseStep_load_returns p env trackId play positionMs reaches
        (Or.inr fails)
      refine ⟨q, hq, ?_⟩
      intro agrees
      cases hid : p.state.playRequestId with
      | none => rw [hid] at other; cases other
      | some id =>
        rw [hid] at other
        have announced := agrees id ((loaded.reuse fails).1.trans hid)
        obtain ⟨es, he, quiet⟩ := loaded.events_eq
        rw [he, lastAnnounced_append _ _ quiet] at announced
        have same : p.playRequestIdGenerator = id := Option.some.inj announced
        simp [same] at other
    | _ => cases stale
  | _ => cases stale

theorem phaseStep_agrees (load : callsLoad p input = true) (fresh : staleLoad p input = false)
    (returned : phaseStep p input = .ok q) : Agrees q := by
  obtain ⟨env, phase⟩ := input
  cases phase with
  | command cmd =>
    cases cmd with
    | load trackId play positionMs =>
      have spec := phaseStep_load p env trackId play positionMs
      rw [returned] at spec
      refine loaded_agrees spec ?_
      intro fails id hid
      -- a load that returned was not stopped by the sink
      have reaches := reachesLoad_of_returned returned
      simp only [staleLoad, reaches, fails, hid, Bool.true_and, bne_eq_false_iff_eq] at fresh
      exact fresh
    | seek positionMs =>
      cases hs : p.state with
      | loading trackId id start loader =>
        have spec := handleCommandLoad_spec p env trackId (some id) start positionMs
        simp only [phaseStep, handleCommand, handleCommandSeek, hs] at returned
        cases hr : handleCommandLoad p env trackId (some id) start positionMs with
        | error e => rw [hr] at returned; cases returned
        | ok r =>
          rw [hr] at returned spec
          cases returned
          refine loaded_agrees spec ?_
          intro _ id' hid
          rw [hs] at hid
          exact (Option.some.inj hid).symm
      | _ => simp [callsLoad, hs] at load
    | _ => cases load
  | _ => cases load

/-- Loads and the id they store agree in exactly the runs without a stale load. -/
theorem requestsAgree_iff (config : PlayerConfig) (sink : S) (now : Nat)
    (inputs : List (Input Uri D)) :
    RequestsAgree (initial config sink now) inputs ↔
      Along step (fun o input => ∀ p, o = .ok p → staleLoad p input = false)
        (.ok (initial config sink now)) inputs := by
  rw [along_iff]
  constructor
  · intro agree front input back hinputs p hp
    by_contra stale
    rw [Bool.not_eq_false] at stale
    obtain ⟨load, q, hq, disagrees⟩ := staleLoad_disagrees stale
    exact disagrees (agree front input back p q hinputs hp load hq)
  · intro good front input back p q hinputs hp load hq
    exact phaseStep_agrees load (good front input back hinputs p hp) hq

/-- The track is loaded again at position zero while it plays. -/
def restartedTrack : List (Input String RadioDecoder) :=
  firstPacket [.ok oneSecond] ++ [loadCommand]

theorem restartedTrack_disagrees : ¬ RequestsAgree radio restartedTrack := by
  intro agree
  obtain ⟨p, hp⟩ : ∃ p, run step (.ok radio) (firstPacket [.ok oneSecond]) = .ok p := ⟨_, rfl⟩
  obtain ⟨load, q, hq, disagrees⟩ : callsLoad p loadCommand = true ∧
      ∃ q, phaseStep p loadCommand = .ok q ∧ ¬ Agrees q := by
    cases hp
    exact staleLoad_disagrees rfl
  exact disagrees (agree (firstPacket [.ok oneSecond]) loadCommand [] p q rfl hp load hq)

end Agreement

section Ends

/-- Everything sent so far, also by a process that has ended. -/
def eventsOf : Process Uri D S (PlayerInternal Uri D S) → List (PlayerEvent Uri)
  | .ok p => p.events
  | .error e => e.player.events

def owedOf : Process Uri D S (PlayerInternal Uri D S) → Nat
  | .ok p => owed p.state
  | .error _ => 0

theorem owedOf_le_one (o : Process Uri D S (PlayerInternal Uri D S)) : owedOf o ≤ 1 := by
  cases o with
  | ok p => exact owed_le_one p.state
  | error e => exact Nat.zero_le 1

def isEndOf (id : UInt64) : PlayerEvent Uri → Bool
  | .endOfTrack playRequestId _ => playRequestId == id
  | _ => false

theorem isEnd_of_isEndOf {id : UInt64} {e : PlayerEvent Uri} (h : isEndOf id e = true) :
    isEnd e = true := by
  cases e with
  | endOfTrack => rfl
  | _ => cases h

variable [DecidableEq Uri] [Decoder D] [Sink S]

/-- Between two loads at most one end of track is sent for a request id. -/
def EndsOnce (start : PlayerInternal Uri D S) (inputs : List (Input Uri D)) : Prop :=
  ∀ front segment back, inputs = front ++ segment ++ back →
    (∀ input ∈ segment, isLoad input = false) → ∀ id,
      let sent := eventsOf (run step (.ok start) front)
      ((eventsOf (run step (.ok start) (front ++ segment))).drop sent.length).countP
        (isEndOf id) ≤ 1

/-- A step that is no load pays the ends it sends from what was owed. -/
theorem step_spends (notLoad : isLoad input = false)
    (noStray : ∀ p, o = .ok p → strayEnd p input = false) :
    ∃ es, eventsOf (step o input) = eventsOf o ++ es ∧
      ends es + owedOf (step o input) ≤ owedOf o := by
  cases o with
  | error e => exact ⟨[], (List.append_nil _).symm, Nat.le_refl 0⟩
  | ok p =>
    have spec := phaseStep_spec p input notLoad
    have stray := noStray p rfl
    change ∃ es, eventsOf (phaseStep p input) = p.events ++ es ∧
      ends es + owedOf (phaseStep p input) ≤ owed p.state
    cases hq : phaseStep p input with
    | ok q => rw [hq] at spec; exact spec.spends stray
    | error e => rw [hq] at spec; exact spec.spends stray

theorem segment_spends {segment : List (Input Uri D)}
    (noLoad : ∀ input ∈ segment, isLoad input = false)
    (good : Along step (fun o input => ∀ p, o = .ok p → strayEnd p input = false) o segment) :
    ∃ es, eventsOf (run step o segment) = eventsOf o ++ es ∧
      ends es + owedOf (run step o segment) ≤ owedOf o := by
  induction segment generalizing o with
  | nil => exact ⟨[], (List.append_nil _).symm, Nat.le_of_eq (Nat.zero_add _)⟩
  | cons input rest ih =>
    obtain ⟨es, he, paid⟩ := step_spends (noLoad input (by simp)) good.1
    obtain ⟨es', he', paid'⟩ := ih (fun i hmem => noLoad i (by simp [hmem])) good.2
    refine ⟨es ++ es', by rw [run_cons, he', he, List.append_assoc], ?_⟩
    rw [ends_append, run_cons]
    omega

/-- A run without stray ends ends each request once. -/
theorem endsOnce_of_noStray (config : PlayerConfig) (sink : S) (now : Nat)
    (inputs : List (Input Uri D))
    (noStray : Along step (fun o input => ∀ p, o = .ok p → strayEnd p input = false)
      (.ok (initial config sink now)) inputs) :
    EndsOnce (initial config sink now) inputs := by
  rintro front segment back rfl noLoad id
  rw [along_append, along_append] at noStray
  obtain ⟨es, he, paid⟩ := segment_spends noLoad noStray.1.2
  have bound := owedOf_le_one (run step (.ok (initial config sink now)) front)
  have counted : es.countP (isEndOf id) ≤ ends es :=
    List.countP_mono_left (fun e _ h => isEnd_of_isEndOf h)
  simp only [run_append, he, List.drop_left]
  omega

def playedTrack : List (Input String RadioDecoder) :=
  firstPacket [.ok oneSecond] ++ [atOnce .packet, atOnce .yield]

theorem playedTrack_endsOnce : EndsOnce radio playedTrack := by
  refine endsOnce_of_noStray _ _ _ playedTrack ⟨?_, ?_, ?_, ?_, ?_, trivial⟩
  · rintro p ⟨⟩; rfl
  · rintro p ⟨⟩; rfl
  · rintro p ⟨⟩; rfl
  · rintro p ⟨⟩; rfl
  · rintro p ⟨⟩; rfl

def brokenTrack : List (Input String RadioDecoder) :=
  firstPacket [.error (.other "read error"), .error (.other "read error")] ++ [atOnce .packet]

theorem brokenTrack_ends_twice : ¬ EndsOnce radio brokenTrack := by
  intro once
  have count := once [loadCommand] (brokenTrack.drop 1) [] rfl (by decide) 0
  revert count
  decide

end Ends

end PlayerGuarantees
