import BodyCallout.Proofs.Toml.Records
import BodyCallout.Settings.Load

/-!
A document lies over the defaults. What it gives is replaced and everything else keeps its documented
default, wherever in the document the settings stand and whatever stands between them.
-/

set_option autoImplicit false

namespace BodyCallout

open Data Toml

structure Overlay where
  bindAddress : Option String := none
  maxConnections : Option UInt64 := none
  maxStreams : Option UInt64 := none
  maxFrameBytes : Option UInt64 := none
  maxBodyBytes : Option UInt64 := none
  idleSeconds : Option UInt64 := none
  sweepSeconds : Option UInt64 := none
  bufferedDelivery : Option Bool := none
  overflow : Option OverflowPolicy := none
  preferIdentity : Option Bool := none
  header : Option String := none
  logFormat : Option LogFormat := none
  logFilter : Option String := none
  metricsEnabled : Option Bool := none
  metricsAddress : Option String := none
  drainSeconds : Option UInt64 := none

/-- The settings that the documentation promises where none is given. -/
def Settings.documented : Settings where
  listener := ⟨"0.0.0.0:8080", 10000, 1024, 16 * 1024 * 1024⟩
  buffering := ⟨2 * 1024 * 1024, 300, none, true, .skip⟩
  correlation := ⟨true, "x-request-id"⟩
  observability := ⟨.pretty, "callout_buffering=info", false, "0.0.0.0:9090"⟩
  shutdown := ⟨10⟩

def policyName : OverflowPolicy → String
  | .skip => "skip"
  | .keepStart => "partial"

def formatName : LogFormat → String
  | .pretty => "pretty"
  | .json => "json"

namespace Overlay

def onto (o : Overlay) (s : Settings) : Settings where
  listener :=
    { bindAddress := o.bindAddress.getD s.listener.bindAddress
      maxConnections := o.maxConnections.getD s.listener.maxConnections
      maxStreams := o.maxStreams.getD s.listener.maxStreams
      maxFrameBytes := o.maxFrameBytes.getD s.listener.maxFrameBytes }
  buffering :=
    { maxBodyBytes := o.maxBodyBytes.getD s.buffering.maxBodyBytes
      idleSeconds := o.idleSeconds.getD s.buffering.idleSeconds
      sweepSeconds := o.sweepSeconds.or s.buffering.sweepSeconds
      bufferedDelivery := o.bufferedDelivery.getD s.buffering.bufferedDelivery
      overflow := o.overflow.getD s.buffering.overflow }
  correlation :=
    { preferIdentity := o.preferIdentity.getD s.correlation.preferIdentity
      header := o.header.getD s.correlation.header }
  observability :=
    { logFormat := o.logFormat.getD s.observability.logFormat
      logFilter := o.logFilter.getD s.observability.logFilter
      metricsEnabled := o.metricsEnabled.getD s.observability.metricsEnabled
      metricsAddress := o.metricsAddress.getD s.observability.metricsAddress }
  shutdown := { drainSeconds := o.drainSeconds.getD s.shutdown.drainSeconds }

variable (o : Overlay)

def listenerFields : List (String × Option Node) :=
  [("bind_address", o.bindAddress.map .text),
    ("max_connections", o.maxConnections.map .natural),
    ("max_streams_per_connection", o.maxStreams.map .natural),
    ("max_frame_bytes", o.maxFrameBytes.map .natural)]

def bufferingFields : List (String × Option Node) :=
  [("max_body_bytes", o.maxBodyBytes.map .natural),
    ("idle_timeout_secs", o.idleSeconds.map .natural),
    ("sweep_interval_secs", o.sweepSeconds.map .natural),
    ("buffered_delivery", o.bufferedDelivery.map .boolean),
    ("overflow_policy", o.overflow.map fun p => .text (policyName p))]

def correlationFields : List (String × Option Node) :=
  [("prefer_stream_identity", o.preferIdentity.map .boolean),
    ("request_id_header", o.header.map .text)]

def observabilityFields : List (String × Option Node) :=
  [("log_format", o.logFormat.map fun f => .text (formatName f)),
    ("log_filter", o.logFilter.map .text),
    ("metrics_enabled", o.metricsEnabled.map .boolean),
    ("metrics_address", o.metricsAddress.map .text)]

def shutdownFields : List (String × Option Node) :=
  [("drain_timeout_secs", o.drainSeconds.map .natural)]

def sections : List (String × List (String × Option Node)) :=
  [("listener", o.listenerFields), ("buffering", o.bufferingFields),
    ("correlation", o.correlationFields), ("observability", o.observabilityFields),
    ("shutdown", o.shutdownFields)]

def GivenIn (ms : Members) : Prop := ∀ s ∈ o.sections, Gives s.2 (ms.find? s.1)

def InRange : Prop :=
  ∀ s ∈ o.sections, ∀ f ∈ s.2, ∀ i, f.2 = some (.integer i) → i < integerLimit

def GivenBy (text : List Char) : Prop :=
  ∃ origin ms, Toml.read? text = some (.table origin ms) ∧ o.GivenIn ms

end Overlay

theorem givenSize_map (default : UInt64) (a : Option UInt64) :
    givenSize default (a.map UInt64.toFin) = a.getD default := by
  cases a <;> rfl

theorem given_map {α : Type} [Described α] (default : α) (a : Option α) :
    given α default (a.map Described.toValue) = a.getD default := by
  cases a with
  | none => rfl
  | some a => exact given_toValue default a

/-- A section is read into its settings if a table that gives them is. One that is not there is
the same as an empty one, which leaves them all at their defaults. -/
theorem held_section (α : Type) [Described α] {fields : List (String × Option Node)}
    {n : Option Node} {default s : α} {v : (Described.shape α).Value} (h : Gives fields n)
    (hd : ∀ t ∈ n, t.Distinct)
    (hread : ∀ origin (ms : Members), ms.Distinct → (∀ f ∈ fields, ms.find? f.1 = f.2) →
      (Described.shape α).held dialect (.table origin ms) = .ok v)
    (hv : valueOf α v = s)
    (hempty : ((Described.shape α).held dialect (.table .opened [])).map (valueOf α) =
      .ok default) :
    ∃ w, n.mapM ((Described.shape α).held dialect) = .ok w ∧ given α default w = s := by
  cases n with
  | none =>
    rw [hread .opened [] Members.distinct_nil fun f hf => (h f hf).symm] at hempty
    exact ⟨none, rfl, (Except.ok.inj hempty).symm.trans hv⟩
  | some t =>
    cases t with
    | table origin ms =>
      refine ⟨some v, ?_, hv⟩
      change some <$> (Described.shape α).held dialect (.table origin ms) = _
      rw [hread origin ms (hd _ rfl).members h]
      rfl
    | _ => exact h.elim

theorem held_texts (a : Option String) :
    (a.map Node.text).mapM (Shape.text.held dialect) = .ok a := by
  cases a <;> rfl

theorem held_booleans (a : Option Bool) :
    (a.map Node.boolean).mapM (Shape.boolean.held dialect) = .ok a := by
  cases a <;> rfl

theorem held_naturals (title : String) (a : Option UInt64) :
    (a.map Node.natural).mapM ((Shape.natural title UInt64.size).held dialect) =
      .ok (a.map UInt64.toFin) :=
  mapM_held (held_natural title) a

theorem held_policy (p : OverflowPolicy) :
    (Described.shape OverflowPolicy).held dialect (.text (policyName p)) =
      .ok (Described.toValue p) := by
  cases p <;> rfl

theorem held_format (f : LogFormat) :
    (Described.shape LogFormat).held dialect (.text (formatName f)) =
      .ok (Described.toValue f) := by
  cases f <;> rfl

section

variable {o : Overlay} {n : Option Node}

theorem listener_held (h : Gives o.listenerFields n) (hd : ∀ t ∈ n, t.Distinct) :
    ∃ v, n.mapM (ListenerSettings.shape.held dialect) = .ok v ∧
      given ListenerSettings {} v = (o.onto .documented).listener := by
  let v : ListenerSettings.shape.Value :=
    (o.bindAddress, o.maxConnections.map UInt64.toFin, o.maxStreams.map UInt64.toFin,
      o.maxFrameBytes.map UInt64.toFin, ())
  refine held_section ListenerSettings (v := v) h hd (fun origin ms hms hm => ?_) ?_ rfl
  · simp only [Overlay.listenerFields, List.forall_mem_cons] at hm
    obtain ⟨haddress, hconnections, hstreams, hframe, -⟩ := hm
    have hf : Finds ms _ v :=
      .may (haddress ▸ held_texts _) <| .may (hconnections ▸ held_naturals _ _) <|
        .may (hstreams ▸ held_naturals _ _) <| .may (hframe ▸ held_naturals _ _) .done
    exact hf.held hms.keys (by decide) _
  · simp only [valueOf, Described.ofValue, v, givenSize_map]
    rfl

theorem buffering_held (h : Gives o.bufferingFields n) (hd : ∀ t ∈ n, t.Distinct) :
    ∃ v, n.mapM (BufferingSettings.shape.held dialect) = .ok v ∧
      given BufferingSettings {} v = (o.onto .documented).buffering := by
  let v : BufferingSettings.shape.Value :=
    (o.maxBodyBytes.map UInt64.toFin, o.idleSeconds.map Described.toValue,
      o.sweepSeconds.map fun n => some n.toFin, o.bufferedDelivery,
      o.overflow.map Described.toValue, ())
  refine held_section BufferingSettings (v := v) h hd (fun origin ms hms hm => ?_) ?_ rfl
  · simp only [Overlay.bufferingFields, List.forall_mem_cons] at hm
    obtain ⟨hsize, hidle, hsweep, hdelivery, hpolicy, -⟩ := hm
    have hf : Finds ms _ v :=
      .may (hsize ▸ held_naturals _ _) <| .may (hidle ▸ held_naturals _ _) <|
        .may (hsweep ▸ mapM_held (held_optional _) _) <| .may (hdelivery ▸ held_booleans _) <|
          .may (hpolicy ▸ mapM_held held_policy _) .done
    exact hf.held hms.keys (by decide) _
  · have hs : given (Option UInt64) none (o.sweepSeconds.map fun n => some n.toFin) =
        o.sweepSeconds.or none := by
      cases o.sweepSeconds <;> rfl
    simp only [valueOf, Described.ofValue, v, givenSize_map, given_map]
    rw [hs]
    rfl

theorem correlation_held (h : Gives o.correlationFields n) (hd : ∀ t ∈ n, t.Distinct) :
    ∃ v, n.mapM (Correlation.shape.held dialect) = .ok v ∧
      given Correlation .standard v = (o.onto .documented).correlation := by
  let v : Correlation.shape.Value := (o.preferIdentity, o.header, ())
  refine held_section Correlation (v := v) h hd (fun origin ms hms hm => ?_) rfl rfl
  simp only [Overlay.correlationFields, List.forall_mem_cons] at hm
  obtain ⟨hprefer, hheader, -⟩ := hm
  have hf : Finds ms _ v :=
    .may (hprefer ▸ held_booleans _) <| .may (hheader ▸ held_texts _) .done
  exact hf.held hms.keys (by decide) _

theorem observability_held (h : Gives o.observabilityFields n) (hd : ∀ t ∈ n, t.Distinct) :
    ∃ v, n.mapM (ObservabilitySettings.shape.held dialect) = .ok v ∧
      given ObservabilitySettings {} v = (o.onto .documented).observability := by
  let v : ObservabilitySettings.shape.Value :=
    (o.logFormat.map Described.toValue, o.logFilter, o.metricsEnabled, o.metricsAddress, ())
  refine held_section ObservabilitySettings (v := v) h hd (fun origin ms hms hm => ?_) ?_ rfl
  · simp only [Overlay.observabilityFields, List.forall_mem_cons] at hm
    obtain ⟨hformat, hfilter, henabled, haddress, -⟩ := hm
    have hf : Finds ms _ v :=
      .may (hformat ▸ mapM_held held_format _) <| .may (hfilter ▸ held_texts _) <|
        .may (henabled ▸ held_booleans _) <| .may (haddress ▸ held_texts _) .done
    exact hf.held hms.keys (by decide) _
  · simp only [valueOf, Described.ofValue, v, given_map]
    rfl

theorem shutdown_held (h : Gives o.shutdownFields n) (hd : ∀ t ∈ n, t.Distinct) :
    ∃ v, n.mapM (ShutdownSettings.shape.held dialect) = .ok v ∧
      given ShutdownSettings {} v = (o.onto .documented).shutdown := by
  let v : ShutdownSettings.shape.Value := (o.drainSeconds.map Described.toValue, ())
  refine held_section ShutdownSettings (v := v) h hd (fun origin ms hms hm => ?_) ?_ rfl
  · simp only [Overlay.shutdownFields, List.forall_mem_cons] at hm
    have hf : Finds ms _ v := .may (hm.1 ▸ held_naturals _ _) .done
    exact hf.held hms.keys (by decide) _
  · simp only [valueOf, Described.ofValue, v, given_map]
    rfl

theorem ofNode_of_given {origin : Origin} {ms : Members} (h : o.GivenIn ms) (hd : ms.Distinct) :
    Settings.ofNode (.table origin ms) = .ok (o.onto .documented) := by
  have hkey (key : String) : ∀ t ∈ ms.find? key, t.Distinct :=
    fun t ht => hd.each (key, t) (Members.mem_of_find? ht)
  simp only [Overlay.GivenIn, Overlay.sections, List.forall_mem_cons] at h
  obtain ⟨hl, hb, hc, ho, hs, -⟩ := h
  obtain ⟨l, hl, el⟩ := listener_held hl (hkey _)
  obtain ⟨b, hb, eb⟩ := buffering_held hb (hkey _)
  obtain ⟨c, hc, ec⟩ := correlation_held hc (hkey _)
  obtain ⟨w, ho, eo⟩ := observability_held ho (hkey _)
  obtain ⟨s, hs, es⟩ := shutdown_held hs (hkey _)
  have hf : (Described.shape Settings).held dialect (.table origin ms) = .ok (l, b, c, w, s, ()) :=
    Finds.held (.may hl <| .may hb <| .may hc <| .may ho <| .may hs .done) hd.keys (by decide) _
  rw [Settings.ofNode, hf]
  change Except.ok (Settings.mk (given ListenerSettings {} l) (given BufferingSettings {} b)
    (given Correlation .standard c) (given ObservabilitySettings {} w)
    (given ShutdownSettings {} s)) = _
  rw [el, eb, ec, eo, es]

theorem Overlay.GivenIn.givenBy {d : Document} (h : o.GivenIn d.members) : o.GivenBy d.text :=
  ⟨.opened, d.members, d.read?_text, h⟩

theorem Overlay.GivenIn.rearranged {d d' : Document} (h : o.GivenIn d.members)
    (hr : d.Rearranges d') : o.GivenIn d'.members :=
  fun s hs => (h s hs).rearranged hr

end

namespace Settings

variable {o : Overlay} {text : List Char}

theorem map_ofNode_of_given (h : o.GivenBy text) :
    (Toml.read? text).map ofNode = some (.ok (o.onto documented)) := by
  obtain ⟨origin, ms, hr, hg⟩ := h
  rw [hr, Option.map_some, ofNode_of_given hg (distinct_read? hr).members]

theorem ofToml_of_given (h : o.GivenBy text) : ofToml text = (o.onto documented).check := by
  obtain ⟨n, hr, hn⟩ := Option.map_eq_some_iff.mp (map_ofNode_of_given h)
  simp only [ofToml, hr, hn]

theorem check_of_violations {s : Settings} (h : s.violations ≠ []) :
    s.check = .error (.broken s.violations) := by
  rw [check, if_neg (by simpa using h)]

theorem check_eq_ok_iff {s : Settings} : s.check = .ok s ↔ s.violations = [] := by
  refine ⟨fun h => ?_, fun h => by rw [check, h]; rfl⟩
  cases hv : s.violations with
  | nil => rfl
  | cons v vs =>
    rw [check_of_violations (by simp [hv])] at h
    cases h

end Settings

/-! Writing an overlay. -/

section

variable {α : Type} {o : Overlay}

theorem exists_text_text {a : Option α} {f : α → String} :
    ∀ n ∈ a.map fun x => Node.text (f x), ∃ text, Stands text n := by
  intro n hn
  obtain ⟨x, -, rfl⟩ := Option.map_eq_some_iff.mp hn
  exact ⟨_, stands_text (f x)⟩

theorem exists_text_boolean {a : Option Bool} :
    ∀ n ∈ a.map Node.boolean, ∃ text, Stands text n := by
  intro n hn
  obtain ⟨b, -, rfl⟩ := Option.map_eq_some_iff.mp hn
  exact ⟨_, stands_boolean b⟩

theorem exists_text_natural {a : Option UInt64}
    (h : ∀ i, a.map Node.natural = some (.integer i) → i < integerLimit) :
    ∀ n ∈ a.map Node.natural, ∃ text, Stands text n := by
  intro n hn
  obtain ⟨m, -, rfl⟩ := Option.map_eq_some_iff.mp hn
  exact ⟨_, stands_natural (Int.ofNat_lt.mp (h m.toNat hn))⟩

theorem Overlay.InRange.exists_texts (h : o.InRange) :
    ∀ s ∈ o.sections, ∀ f ∈ s.2, ∀ n ∈ f.2, ∃ text, Stands text n := by
  simp only [Overlay.InRange, Overlay.sections, List.forall_mem_cons, Overlay.listenerFields,
    Overlay.bufferingFields, Overlay.correlationFields, Overlay.observabilityFields,
    Overlay.shutdownFields] at h ⊢
  obtain ⟨⟨-, hconnections, hstreams, hframe, -⟩, ⟨hsize, hidle, hsweep, -, -, -⟩, -, -,
    ⟨hdrain, -⟩, -⟩ := h
  exact ⟨⟨exists_text_text, exists_text_natural hconnections, exists_text_natural hstreams,
      exists_text_natural hframe, nofun⟩,
    ⟨exists_text_natural hsize, exists_text_natural hidle, exists_text_natural hsweep,
      exists_text_boolean, exists_text_text, nofun⟩,
    ⟨exists_text_boolean, exists_text_text, nofun⟩,
    ⟨exists_text_text, exists_text_text, exists_text_boolean, exists_text_text, nofun⟩,
    ⟨exists_text_natural hdrain, nofun⟩, nofun⟩

theorem Overlay.InRange.exists_document (h : o.InRange) : ∃ d : Document, o.GivenIn d.members := by
  refine Toml.exists_document ?_ h.exists_texts ?_
  · simp [Overlay.sections, Overlay.listenerFields, Overlay.bufferingFields,
      Overlay.correlationFields, Overlay.observabilityFields, Overlay.shutdownFields]
  · exact (by decide : ["listener", "buffering", "correlation", "observability", "shutdown"].Nodup)

end

namespace Settings

/-- Whatever settings a document gives, in whatever order its sections and keys stand and whatever
else stands among them: the settings that are read are the documented ones with those in their place.
They are returned just if they break no rule; else all that is broken is reported. Every choice of
settings in their range has a document. -/
theorem overlay_on_documented (o : Overlay) :
    (∀ text, o.GivenBy text →
      (Toml.read? text).map ofNode = some (.ok (o.onto documented)) ∧
      (ofToml text = .ok (o.onto documented) ↔ (o.onto documented).violations = []) ∧
      ((o.onto documented).violations ≠ [] → ∃ fault,
        ofToml text = .error fault ∧ fault = .broken (o.onto documented).violations ∧
          fault.message = "Validation failed: " ++
            ", ".intercalate ((o.onto documented).violations.map Violation.message))) ∧
    (∀ d : Document, o.GivenIn d.members →
      o.GivenBy d.text ∧ ∀ d', d.Rearranges d' → ofToml d'.text = ofToml d.text) ∧
    (o.InRange → ∃ d : Document, o.GivenIn d.members) := by
  refine ⟨fun text h => ⟨map_ofNode_of_given h, ?_, fun hv => ?_⟩,
    fun d h => ⟨h.givenBy, fun d' hr => ?_⟩, fun h => h.exists_document⟩
  · rw [ofToml_of_given h, check_eq_ok_iff]
  · exact ⟨_, (ofToml_of_given h).trans (check_of_violations hv), rfl, rfl⟩
  · rw [ofToml_of_given h.givenBy, ofToml_of_given (h.rearranged hr).givenBy]

def shuffled : Document :=
  ⟨[], [⟨"observability", [⟨"log_format", _, _, stands_text "json"⟩], by decide⟩,
    ⟨"extra", [⟨"a b", _, _, stands_boolean true⟩], by decide⟩,
    ⟨"buffering", [⟨"overflow_policy", _, _, stands_text "partial"⟩,
      ⟨"level", _, _, stands_natural (n := 3) (by decide)⟩,
      ⟨"max_body_bytes", _, _, stands_natural (n := 1024) (by decide)⟩], by decide⟩], by decide⟩

theorem overlay_of_shuffled :
    let o : Overlay :=
      { maxBodyBytes := some 1024, overflow := some .keepStart, logFormat := some .json }
    shuffled.text = ("[observability]\nlog_format = \"json\"\n[extra]\n\"a b\" = true\n" ++
      "[buffering]\noverflow_policy = \"partial\"\nlevel = 3\nmax_body_bytes = 1024\n").toList ∧
    o.InRange ∧ o.GivenIn shuffled.members ∧ ofToml shuffled.text = .ok
      { buffering := { maxBodyBytes := 1024, overflow := .keepStart }
        observability := { logFormat := .json } } := by
  intro o
  obtain ⟨hread, hwritten, -⟩ := overlay_on_documented o
  have hr : o.InRange := by
    simp only [Overlay.InRange, Overlay.sections, Overlay.listenerFields, Overlay.bufferingFields,
      Overlay.correlationFields, Overlay.observabilityFields, Overlay.shutdownFields,
      List.forall_mem_cons]
    simp [o, Node.natural, integerLimit]
  have hnone (key : String) (hk : key ∉ shuffled.members.map Prod.fst) :
      shuffled.members.find? key = none := Members.find?_eq_none_iff.mpr hk
  have hb : shuffled.members.find? "buffering" =
      some (.table .opened [("overflow_policy", .text "partial"), ("level", .integer 3),
        ("max_body_bytes", .integer 1024)]) := rfl
  have ho : shuffled.members.find? "observability" =
      some (.table .opened [("log_format", .text "json")]) := rfl
  have hg : o.GivenIn shuffled.members := by
    simp only [Overlay.GivenIn, Overlay.sections, List.forall_mem_cons]
    rw [hb, ho, hnone "listener" (by decide), hnone "correlation" (by decide),
      hnone "shutdown" (by decide)]
    simp only [Gives, Overlay.listenerFields, Overlay.bufferingFields, Overlay.correlationFields,
      Overlay.observabilityFields, Overlay.shutdownFields, List.forall_mem_cons]
    have hnil (p : String × Option Node → Prop) : ∀ f ∈ [], p f := List.forall_mem_nil p
    exact ⟨⟨rfl, rfl, rfl, rfl, hnil _⟩, ⟨rfl, rfl, rfl, rfl, rfl, hnil _⟩, ⟨rfl, rfl, hnil _⟩,
      ⟨rfl, rfl, rfl, rfl, hnil _⟩, ⟨rfl, hnil _⟩, List.forall_mem_nil _⟩
  refine ⟨by decide +kernel, hr, hg, ?_⟩
  exact (hread _ (hwritten shuffled hg).1).2.1.mpr (by decide +kernel)

end Settings

end BodyCallout
