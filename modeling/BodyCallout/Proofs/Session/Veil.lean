import BodyCallout.Proofs.Session.Scenes

/-!
A veil over what builders decide. It hides the mutation of an answer and, in the journal, what
became of a body that the builder was asked about. Behind it every run is the run of a builder that
refuses all bodies.
-/

set_option autoImplicit false

namespace BodyCallout

/-- What the overflow policy decides stays in sight. -/
def Outcome.veil : Outcome → Outcome
  | .skipped => .skipped
  | _ => .failed

def Sample.veil : Sample → Sample
  | .mutation outcome size => .mutation outcome.veil size
  | sample => sample

def Answer.veil (a : Answer) : Answer := { a with reply := a.reply.setMutation none }

namespace Store

/-- The same clock, limit and entries, and a journal that does not tell the outcomes apart. -/
def veil (s : Store) : Store := { s with journal := s.journal.map Sample.veil }

theorem record_veil (s : Store) (x : Sample) : s.veil.record x.veil = (s.record x).veil := rfl

theorem insert_veil (s : Store) (id : TransactionId) : s.veil.insert id = (s.insert id).veil := rfl

theorem create_veil (s : Store) (id : TransactionId) :
    s.veil.create id = ((s.create id).1.veil, (s.create id).2) := by
  have hc : s.veil.contains id = s.contains id := rfl
  rw [create, create, hc, insert_veil]
  split <;> rfl

theorem update_veil {α : Type} (s : Store) (id : TransactionId)
    (f : Transaction → Transaction × α) :
    s.veil.update id f = ((s.update id f).1.veil, (s.update id f).2) := by
  have hl : s.veil.live = s.live := rfl
  cases h : s.live.get? id with
  | none => rw [update_of_absent f h, update_of_absent f (hl ▸ h)]
  | some t =>
    rw [update_of_live f h, update_of_live f (hl ▸ h)]
    rfl

theorem delete_veil (s : Store) (id : TransactionId) :
    s.veil.delete id = ((s.delete id).1.veil, (s.delete id).2) := by
  have hl : s.veil.live.get? id = s.live.get? id := rfl
  rw [delete, delete, hl]
  cases s.live.get? id <;> rfl

theorem evict_veil (s : Store) (keep : Transaction → Bool) :
    s.veil.evict keep = ((s.evict keep).1.veil, (s.evict keep).2) := by
  have hs : s.veil.size = s.size := rfl
  have hk : ({ s.veil with live := s.veil.live.filter fun _ t => keep t } : Store).size =
      ({ s with live := s.live.filter fun _ t => keep t } : Store).size := rfl
  simp only [evict, hs, hk]
  split <;> rfl

end Store

namespace Engine

def mute (e : Engine) : Engine := { e with builder := fun _ => .error (.failed "") }

theorem veil_answerWith (p : Phase) (m : Option Mutation) :
    (answerWith p m).veil = answerWith p none := by
  rcases p with ⟨side, ⟨⟩⟩ <;> cases m <;> rfl

variable (e : Engine)

theorem judge_mute (body : Body) : e.mute.judge body = ((e.judge body).1.veil, none) := by
  by_cases hc : e.consults body
  · have hn : ¬ (body.truncated = true ∧ e.overflow = .skip) := hc
    have hm : e.mute.judge body = (.failed, none) := if_neg hn
    have hv : (e.judge body).1.veil = .failed := by
      rw [judge, if_neg hn]
      rcases e.builder body with (_ | _) | m
      · rfl
      · rfl
      · dsimp only
        split <;> split <;> rfl
    rw [hm, hv]
  · have hs : body.truncated = true ∧ e.overflow = .skip := Decidable.not_not.mp hc
    have hm : e.mute.judge body = (.skipped, none) := if_pos hs
    rw [hm, judge, if_pos hs]
    rfl

theorem respond_mute (p : Phase) (claimed : Option Body) (s : Store) :
    e.mute.respond p claimed s.veil =
      ((e.respond p claimed s).1.veil, (e.respond p claimed s).2.veil) := by
  cases claimed with
  | none => exact Prod.ext rfl (veil_answerWith p none).symm
  | some body =>
    have ha := veil_answerWith p (e.judge body).2
    simp only [respond, judge_mute, ha, ← Store.record_veil, Sample.veil]

theorem withDelivery_veil (event : Event) (a : Answer) :
    e.mute.withDelivery event a.veil = (e.withDelivery event a).veil := by
  rcases event with ⟨⟨⟩, part⟩ | ⟨side, part⟩ | ⟨side, part⟩ <;> try rfl
  cases hd : e.bufferedDelivery <;> simp [withDelivery, mute, hd, Answer.veil]

theorem process_mute (id : Option TransactionId) (event : Event) (s : Store) :
    e.mute.process id event s.veil =
      ((e.process id event s).1.veil, (e.process id event s).2.veil) := by
  have hp (p : Phase) : (Answer.pass p).veil = .pass p := veil_answerWith p none
  cases id with
  | none => simp only [process, miss, hp]; rfl
  | some id =>
    have hr : s.veil.record (.event event.phase) = (s.record (.event event.phase)).veil := rfl
    simp only [process, hr, Store.update_veil]
    rcases (s.record (.event event.phase)).update id (advance event) with
      ⟨s, _ | ⟨refused, claimed⟩⟩
    · simp only [miss, ← withDelivery_veil, hp]
      rfl
    · simp only [← withDelivery_veil]
      cases refused
      · simp [respond_mute]
      · have ho : s.veil.record .overflow = (s.record .overflow).veil := rfl
        simp [ho, respond_mute]

end Engine

namespace Correlation

theorem createFrom_veil (s : Store) (source : Source) (id : TransactionId) :
    createFrom s.veil source id =
      ((createFrom s source id).1.veil, (createFrom s source id).2) := by
  simp only [createFrom, Store.create_veil]
  rcases s.create id with ⟨s, d | ⟨⟩⟩ <;> rfl

theorem assign_veil (c : Correlation) (identity : Option String) (headers : HeaderPart)
    (fresh : TransactionId) (s : Store) :
    c.assign identity headers fresh s.veil =
      ((c.assign identity headers fresh s).1.veil, (c.assign identity headers fresh s).2) := by
  unfold assign
  split
  · exact createFrom_veil s _ _
  · split
    · exact createFrom_veil s _ _
    · next id _ =>
      simp only [createFrom_veil]
      rcases createFrom s .header id with ⟨s, d | opened⟩
      · exact createFrom_veil s _ _
      · rfl

end Correlation

def Service.mute (service : Service) : Service := { service with engine := service.engine.mute }

namespace Session

variable (service : Service) (session : Session) (s : Store)

theorem finish_veil :
    session.finish s.veil = ((session.finish s).1, (session.finish s).2.veil) := by
  unfold finish
  split
  · rfl
  · next id _ => simp only [Engine.fst_close, Store.delete_veil]

theorem begin_mute (headers : HeaderPart) (fresh : TransactionId) :
    session.begin service.mute headers fresh s.veil =
      ((session.begin service headers fresh s).1, (session.begin service headers fresh s).2.1.veil,
        (session.begin service headers fresh s).2.2) := by
  have hc : service.mute.correlation = service.correlation := rfl
  simp only [begin, finish_veil, hc, Correlation.assign_veil]
  rcases service.correlation.assign (session.finish s).1.identity headers fresh
    (session.finish s).2 with ⟨s, d | ⟨id, source⟩⟩ <;> rfl

theorem process_mute (event : Event) :
    session.process service.mute event s.veil =
      ((session.process service event s).1, (session.process service event s).2.1.veil,
        (session.process service event s).2.2.map Answer.veil) := by
  have he : service.mute.engine = service.engine.mute := rfl
  simp only [process, he, Engine.process_mute]
  rfl

theorem handle_mute (event : Event) (fresh : TransactionId) :
    session.handle service.mute event fresh s.veil =
      ((session.handle service event fresh s).1, (session.handle service event fresh s).2.1.veil,
        (session.handle service event fresh s).2.2.map Answer.veil) := by
  rcases event with ⟨⟨⟩, part⟩ | ⟨side, part⟩ | ⟨side, part⟩
  · simp only [handle, begin_mute]
    rcases session.begin service part fresh s with ⟨session, s, d | ⟨⟩⟩
    · rfl
    · exact session.process_mute service s _
  all_goals exact session.process_mute service s _

def Ending.veil (ending : Ending) : Ending :=
  { ending with answers := ending.answers.map Answer.veil }

theorem work_mute (sends : Nat) (items : List (Item × TransactionId)) :
    session.work service.mute sends s.veil items =
      ((session.work service sends s items).1, (session.work service sends s items).2.1.veil,
        (session.work service sends s items).2.2.veil) := by
  induction items generalizing session s sends with
  | nil => simp only [work]; rfl
  | cons item rest ih =>
    obtain ⟨item, fresh⟩ := item
    cases item with
    | finish => simp only [work]; rfl
    | abort reason => simp only [work]; rfl
    | event event =>
      simp only [work, handle_mute]
      rcases session.handle service event fresh s with ⟨session, s, d | a⟩
      · rfl
      · cases sends with
        | zero => rfl
        | succ sends => simp only [Except.map, ih]; rfl

theorem run_mute (sends : Nat) (items : List (Item × TransactionId)) :
    session.run service.mute sends s.veil items =
      ((session.run service sends s items).1.veil,
        (session.run service sends s items).2.veil) := by
  have hs : s.veil.record .streamStarted = (s.record .streamStarted).veil := rfl
  simp only [run, hs, work_mute, finish_veil]
  rfl

end Session

namespace Shared

variable {ν : Type} [DecidableEq ν] (service : Service) (w : Shared ν)

def veil (w : Shared ν) : Shared ν := w.withStore Store.veil

theorem finish_veil (name : ν) :
    w.veil.finish name = ((w.finish name).1.veil, (w.finish name).2) := by
  have hg : w.veil.sessions.get? name = w.sessions.get? name := rfl
  have hs : w.veil.store = w.store.veil := rfl
  simp only [finish, hg, hs]
  cases w.sessions.get? name with
  | none => rfl
  | some session => simp only [Session.finish_veil]; rfl

theorem take_mute (t : Turn ν) :
    w.veil.take service.mute t =
      ((w.take service t).1.veil, (w.take service t).2.map (Except.map Answer.veil)) := by
  cases t with
  | start name identity => simp only [take, start, finish_veil]; rfl
  | finish name => simp only [take, finish_veil]; rfl
  | advance time => rfl
  | sweep idle =>
    have hs : w.veil.store.sweep idle = ((w.store.sweep idle).1.veil, (w.store.sweep idle).2) :=
      w.store.evict_veil _
    simp only [take, withStore, hs]
    rfl
  | event name event fresh =>
    have hg : w.veil.sessions.get? name = w.sessions.get? name := rfl
    have hs : w.veil.store = w.store.veil := rfl
    simp only [take, handle, hg, hs]
    cases w.sessions.get? name with
    | none => rfl
    | some session => simp only [Session.handle_mute]; rfl

end Shared

end BodyCallout
