import CodeAudit.Assistant
import CodeAudit.Proofs.SmartCache

/-! Runs of questions to an assistant. An answer is what the service replies to the question, or
else to the latest one with the same key that it answered. -/

namespace CodeAudit.Assistant

open List Cache Time Optimizer Seconds Prod Smart Value Option Question

abbrev Replies := String → Entries → Outcome String

def Replies.service {T : Type} (reply : Replies) (done : T → String → Entries → T) : Service T :=
  fun now prompt args => (reply prompt args, done now prompt args)

def givenOr (limit usual : Value) : Value := if limit.isNull then usual else limit

namespace Question

def key (q : Question) : String := questionKey (.text q.prompt) q.extra

/-- The arguments that a question asks for: the limits that it gives, even if they are zero. -/
def ownArguments (q : Question) : Entries :=
  ("max_tokens", givenOr q.maxTokens (.nat (usualTokens q.prompt))) ::
    ("temperature", givenOr q.temperature (.float (usualTemperature q.prompt))) :: q.extra

end Question

structure Exchange where
  question : Question
  asked : Bool
  answer : Outcome Value

open Exchange

namespace Exchange

def response (e : Exchange) : Outcome Value := e.answer >>= fun v => v.member "response"

def keeps (key : String) (e : Exchange) : Bool := e.asked && e.answer.isOk && e.question.key == key

end Exchange

def latest? (log : List Exchange) (key : String) : Option Question :=
  (log.reverse.find? (·.keeps key)).map Exchange.question

variable (before : List Exchange) (e : Exchange)

def source : Question := if e.asked then e.question else (latest? before e.question.key).getD e.question

theorem latest?_snoc (log : List Exchange) (e : Exchange) (key : String) :
    latest? (log ++ [e]) key = if e.keeps key then some e.question else latest? log key := by
  simp only [latest?, reverse_append, reverse_singleton, singleton_append, find?_cons]
  cases e.keeps key <;> rfl

variable {key : String} {q : Question} {log : List Exchange}

theorem mem_of_latest? (h : latest? log key = some q) : q ∈ log.map question := by
  obtain ⟨e, he, rfl⟩ := map_eq_some_iff.mp h
  exact mem_map_of_mem (mem_reverse.mp (mem_of_find?_eq_some he))

theorem key_of_latest? (h : latest? log key = some q) : q.key = key := by
  obtain ⟨e, he, rfl⟩ := map_eq_some_iff.mp h
  have hkeeps := find?_some he
  simp only [keeps, Bool.and_eq_true, beq_iff_eq] at hkeeps
  exact hkeeps.2

theorem source_key : (source before e).key = e.question.key := by
  unfold source
  split
  · rfl
  · cases h : latest? before e.question.key with
    | none => rfl
    | some q => exact key_of_latest? h

theorem source_mem : source before e ∈ (before ++ [e]).map question := by
  unfold source
  split
  · simp
  · cases h : latest? before e.question.key with
    | none => simp
    | some q => simpa using .inl (by simpa using mem_of_latest? h)

variable {T : Type} [Seconds T]

structure Talk (T : Type) where
  optimizer : Optimizer T
  log : List Exchange := []

variable (service : Service T)

def Talk.next (t : Talk T) (now : T) (q : Question) : Talk T where
  optimizer := (t.optimizer.ask service now q).2.2
  log := t.log ++ [{
    question := q
    asked := !(t.optimizer.cache.fetch now q.key).1.truthy
    answer := (t.optimizer.ask service now q).1 }]

variable {r : String} {reply : Replies} {e : Exchange} (o : Optimizer T) (calls : List (T × Question))

def talkFrom : Talk T :=
  calls.foldl (fun t e => t.next service e.1 e.2) ⟨o, []⟩

def talkAfter (timeless : Bool) (m : Int) (calls : List (T × Question)) : Talk T :=
  talkFrom service { cache := .opened some [] timeless m } calls

theorem questions_talkFrom : (talkFrom service o calls).log.map question = calls.map snd := by
  induction calls using reverseRecOn with
  | nil => rfl
  | append_singleton calls e ih =>
    rw [talkFrom, foldl_append, map_append, ← ih]
    exact map_append

def answerOf (r : String) (stats : Value) : Value := .object [("response", .text r), ("stats", stats)]

section Step

variable {o : Optimizer T} {m : Int} {reply : Replies} (done : T → String → Entries → T) {now : T} {q : Question}

theorem ask_of_held (h : (o.cache.fetch now q.key).1.truthy) :
    (o.ask (reply.service done) now q).1 = .ok (cachedAnswer (o.cache.fetch now q.key).1) ∧
      (o.ask (reply.service done) now q).2.2.cache = o.cache.step now (.get q.key) := by
  unfold ask
  simp only [key] at h ⊢
  simp only [h, if_true, true_and]
  rfl

theorem ask_of_error (h : (o.cache.fetch now q.key).1.truthy = false) {f : Fault}
    (hr : reply q.prompt (callArguments q) = .error f) : (o.ask (reply.service done) now q).1 = .error f ∧
      (o.ask (reply.service done) now q).2.2.cache = o.cache.step now (.get q.key) := by
  unfold ask Replies.service
  simp only [key] at h ⊢
  simp only [h, hr]
  exact ⟨rfl, rfl⟩

theorem ask_of_reply (h : (o.cache.fetch now q.key).1.truthy = false)
    (hr : reply q.prompt (callArguments q) = .ok r) :
    ∃ stats, (o.ask (reply.service done) now q).1 = .ok (answerOf r stats) ∧
      (o.ask (reply.service done) now q).2.2.cache = (o.cache.step now (.get q.key)).step
        (done now q.prompt (callArguments q)) (.set q.key (answerOf r stats)) := by
  unfold ask Replies.service
  simp only [key] at h ⊢
  simp only [h, hr]
  exact ⟨_, rfl, rfl⟩

end Step

/-- Every answer that the cache holds is what the service replied to the latest question with its
key. -/
def Kept (reply : Replies) (t : Talk T) : Prop :=
  ∀ key entry, t.optimizer.cache.store.entries.get? key = some entry →
    ∃ q r stats, latest? t.log key = some q ∧ reply q.prompt (callArguments q) = .ok r ∧
      entry.value = answerOf r stats

def IsReply (reply : Replies) (before : List Exchange) (e : Exchange) : Prop :=
  e.response = (reply (source before e).prompt (callArguments (source before e))).map .text

section Talk

variable {t : Talk T} {m : Int} {reply : Replies} {now : T} {c : Smart T String}

theorem get?_of_step_get (h : c.Ready some m) {key other : String} {entry : Stored T Value}
    (hget : (c.step now (.get other)).store.entries.get? key = some entry) :
    c.store.entries.get? key = some entry := by
  rw [h.get?_step_get] at hget
  split at hget
  · exact (filter_eq_some_iff.mp hget).1
  · exact hget

variable (h : t.optimizer.cache.Ready some m)

include h

theorem Kept.of_step_get (ht : Kept reply t) {other : String}
    {o : Optimizer T} (ho : o.cache = t.optimizer.cache.step now (.get other)) (he : ∀ key, e.keeps key = false) :
    Kept reply ⟨o, t.log ++ [e]⟩ := by
  intro key entry hget
  obtain ⟨q, r, stats, hlatest, hr, hvalue⟩ := ht key entry (get?_of_step_get h (ho ▸ hget))
  exact ⟨q, r, stats, by rw [latest?_snoc, he]; exact hlatest, hr, hvalue⟩

omit h in
theorem held_of_truthy (h : c.Ready some m) (hfound : (c.fetch now key).1.truthy) :
    ∃ entry, c.store.entries.get? key = some entry ∧ (c.fetch now key).1 = entry.value := by
  rw [h.fetch_eq] at hfound ⊢
  cases hget : c.store.entries.get? key with
  | none => simp [Store.find?_of_none hget, truthy] at hfound
  | some entry =>
    refine ⟨entry, rfl, ?_⟩
    simp only [Store.find?_of_some hget] at hfound ⊢
    cases hover : entry.isOver now
    · rfl
    · simp [hover, truthy] at hfound

theorem told_next (ht : Kept reply t) (done : T → String → Entries → T) (now : T) (q : Question) :
    let next := t.next (reply.service done) now q
    next.optimizer.cache.Ready some m ∧ Kept reply next ∧ IsReply reply t.log {
      question := q
      asked := !(t.optimizer.cache.fetch now q.key).1.truthy
      answer := (t.optimizer.ask (reply.service done) now q).1 } := by
  have hready := h.step now (.get q.key)
  unfold IsReply response source
  cases hfound : (t.optimizer.cache.fetch now q.key).1.truthy with
  | true =>
    obtain ⟨hanswer, hcache⟩ : (t.optimizer.ask (reply.service done) now q).1 = _ ∧ _ := ask_of_held done hfound
    obtain ⟨entry, hget, hentry⟩ := held_of_truthy h hfound
    obtain ⟨earlier, r, stats, hlatest, hr, hvalue⟩ := ht q.key entry hget
    refine ⟨hcache ▸ hready, ht.of_step_get h hcache fun key => by simp [keeps, hfound], ?_⟩
    rw [hanswer, hentry, hvalue]
    simp only [Bool.not_true, Bool.false_eq_true, if_false, hlatest, getD_some, hr]
    rfl
  | false =>
    cases hr : reply q.prompt (callArguments q) with
    | error f =>
      obtain ⟨hanswer, hcache⟩ := ask_of_error done hfound hr
      refine ⟨hcache ▸ hready, ?_, by simp [hanswer, hr, Except.map]⟩
      exact ht.of_step_get h hcache fun key => by simp [keeps, hanswer, Except.toBool]
    | ok r =>
      obtain ⟨stats, hanswer, hcache⟩ := ask_of_reply done hfound hr
      refine ⟨hcache ▸ hready.step _ _, ?_, by simp [hanswer, hr, Except.map, answerOf, member]⟩
      intro key entry hget
      have hkeeps : ∀ key, keeps key ⟨q, true, .ok (answerOf r stats)⟩ = (q.key == key) := fun _ => rfl
      simp only [Talk.next, hcache, hready.get?_step_set _ key q.key (v := answerOf r stats) rfl] at hget
      simp only [Talk.next, hanswer, hfound, Bool.not_false, latest?_snoc, hkeeps]
      by_cases hk : key = q.key
      -- The new answer stands under its own key; the other keys lose entries at most.
      · simp only [hk, beq_self_eq_true, if_true, some.injEq] at hget ⊢
        exact ⟨q, r, stats, rfl, hr, by rw [← hget]⟩
      · have hk' : (q.key == key) = false := by simpa using fun he : q.key = key => hk he.symm
        simp only [hk, hk', beq_iff_eq, if_false] at hget ⊢
        split at hget
        · cases hget
        · exact ht key entry (get?_of_step_get h hget)

omit h

theorem told_talkAfter (reply : Replies) (done : T → String → Entries → T) (timeless : Bool) (m : Int)
    (calls : List (T × Question)) : let t := talkAfter (reply.service done) timeless m calls
    t.optimizer.cache.Ready some m ∧ Kept reply t ∧ AtEach (IsReply reply) t.log := by
  induction calls using reverseRecOn with
  | nil =>
    refine ⟨⟨rfl, rfl, rfl⟩, ?_, atEach_nil _⟩
    intro key entry hget
    simp [talkAfter, talkFrom, opened] at hget
  | append_singleton calls e ih =>
    obtain ⟨hready, hkept, htold⟩ := ih
    obtain ⟨hready, hnext, hreply⟩ := told_next hready hkept done e.1 e.2
    rw [talkAfter, talkFrom, foldl_append]
    exact ⟨hready, hnext, (atEach_snoc _ _ _).mpr ⟨htold, hreply⟩⟩

end Talk

theorem source_mem_log {before : List Exchange} (h : before ++ [e] <+: log) :
    source before e ∈ log.map question := (h.map question).subset (source_mem before e)

def TellsApart (reply : Replies) (questions : List Question) : Prop :=
  ∀ q ∈ questions, ∀ other ∈ questions,
    reply q.prompt (callArguments q) = reply other.prompt other.ownArguments →
      q.prompt = other.prompt ∧ callArguments q = other.ownArguments

def AnswersOwn (reply : Replies) (e : Exchange) : Prop :=
  e.response = (reply e.question.prompt e.question.ownArguments).map .text

def HasOwnSource : Prop :=
  (source before e).prompt = e.question.prompt ∧ callArguments (source before e) = e.question.ownArguments

theorem map_text_inj {a b : Outcome String} (h : a.map text = b.map text) : a = b := by
  cases a <;> cases b <;> simp_all [Except.map]

/-- Questions with one key have the same prompt and are put to the service with the arguments that
they ask for. -/
def Alike (questions : List Question) : Prop :=
  ∀ q ∈ questions, ∀ other ∈ questions, q.key = other.key →
    q.prompt = other.prompt ∧ callArguments q = other.ownArguments

/-- After every run of questions each answer is the reply of the service to its source. So all
answers are replies to the questions themselves if every source was like its question, and only then
if the service tells them apart. -/
theorem answers_are_replies_to_sources (reply : Replies) (done : T → String → Entries → T)
    (timeless : Bool) (m : Int) (calls : List (T × Question)) :
    let log := (talkAfter (reply.service done) timeless m calls).log
    log.map Exchange.question = calls.map Prod.snd ∧ Smart.AtEach (IsReply reply) log ∧
      (Smart.AtEach HasOwnSource log → ∀ e ∈ log, AnswersOwn reply e) ∧
      (TellsApart reply (calls.map Prod.snd) → (∀ e ∈ log, AnswersOwn reply e) → Smart.AtEach HasOwnSource log) ∧
      (Alike (calls.map Prod.snd) → Smart.AtEach HasOwnSource log) := by
  intro log
  have hquestions := questions_talkFrom (reply.service done) { cache := .opened some [] timeless m } calls
  have htold := (told_talkAfter reply done timeless m calls).2.2
  -- Both the question and its source are questions of the run.
  have hmems : ∀ before e, before ++ [e] <+: log →
      source before e ∈ calls.map Prod.snd ∧ e.question ∈ calls.map Prod.snd := by
    intro before e he
    rw [← hquestions]
    exact ⟨source_mem_log he, List.mem_map_of_mem (he.subset (by simp))⟩
  refine ⟨hquestions, htold, ?_, ?_, ?_⟩
  · intro hsources e he
    obtain ⟨before, rest, hlog⟩ := List.append_of_mem he
    have hbefore : before ++ [e] <+: log := ⟨rest, by simp [hlog]⟩
    obtain ⟨hprompt, hargs⟩ := hsources before e hbefore
    rw [AnswersOwn, htold before e hbefore, hprompt, hargs]
  · intro htells howns before e he
    obtain ⟨hsource, hown⟩ := hmems before e he
    have hsame := map_text_inj ((htold before e he).symm.trans (howns e (he.subset (by simp))))
    exact htells _ hsource _ hown hsame
  · intro halike before e he
    obtain ⟨hsource, hown⟩ := hmems before e he
    exact halike _ hsource _ hown (source_key before e)

def briefly : Question := { prompt := "Evaluate this", maxTokens := .int 10 }

theorem answers_are_replies_to_sources_again :
    let reply : Replies := fun prompt args => .ok (prompt ++ Json.write {} (.object args))
    let calls : List (Rat × Question) := [(0, briefly), (60, briefly)]
    let log := (talkAfter (reply.service fun now _ _ => now + 2) false 1000 calls).log
    Alike (calls.map Prod.snd) ∧ TellsApart reply (calls.map Prod.snd) ∧ Smart.AtEach HasOwnSource log ∧
      ∀ e ∈ log, AnswersOwn reply e := by
  intro reply calls log
  have hsame : ∀ q ∈ calls.map Prod.snd, q = briefly := by simp [calls]
  have halike : Alike (calls.map Prod.snd) := by
    intro q hq other hother _
    rw [hsame q hq, hsame other hother]
    exact ⟨rfl, rfl⟩
  have htells : TellsApart reply (calls.map Prod.snd) := by
    intro q hq other hother _
    rw [hsame q hq, hsame other hother]
    exact ⟨rfl, rfl⟩
  obtain ⟨-, -, howns, -, hsources⟩ := answers_are_replies_to_sources reply (fun now _ _ => now + 2) false 1000 calls
  exact ⟨halike, htells, hsources halike, howns (hsources halike)⟩

theorem fetch_after_reply {other : Question} (hr : reply q.prompt (callArguments q) = .ok r)
    (hkey : other.key = q.key) (done : T → String → Entries → T) (m : Int) (now later : T) :
    ∃ stats, ((({ cache := .opened some [] true m } : Optimizer T).ask (reply.service done)
      now q).2.2.cache.fetch later other.key).1 = answerOf r stats := by
  let fresh : Optimizer T := { cache := .opened some [] true m }
  have hfresh : fresh.cache.Ready some m := ⟨rfl, rfl, rfl⟩
  have hmiss : (fresh.cache.fetch now q.key).1.truthy = false := rfl
  obtain ⟨stats, -, hcache⟩ := ask_of_reply done hmiss hr
  have hheld : (fresh.ask (reply.service done) now q).2.2.cache.store.entries.get? q.key =
      some ⟨answerOf r stats, none⟩ := by
    rw [hcache, (hfresh.step now _).get?_step_set _ q.key q.key (v := answerOf r stats) rfl, beq_self_eq_true]
    rfl
  have hready : (fresh.ask (reply.service done) now q).2.2.cache.Ready some m := hcache ▸ (hfresh.step now _).step _ _
  refine ⟨stats, ?_⟩
  rw [hready.fetch_eq, hkey, Store.find?_of_some hheld]
  rfl

theorem exists_answered_alike {other : Question}
    (hr : reply q.prompt (callArguments q) = .ok r) (hkey : other.key = q.key) (done : T → String → Entries → T)
    (m : Int) (now later : T) : ∃ e ∈ (talkAfter (reply.service done) true m [(now, q), (later, other)]).log,
      e.question = other ∧ e.response = .ok (.text r) := by
  obtain ⟨stats, hfound⟩ := fetch_after_reply hr hkey done m now later
  have hresponse : (((({ cache := .opened some [] true m } : Optimizer T).ask (reply.service done) now q).2.2.ask
      (reply.service done) later other).1 >>= fun v => v.member "response") = .ok (.text r) := by
    rw [(ask_of_held done (by rw [hfound]; rfl)).1, hfound]
    rfl
  exact ⟨_, mem_append_right _ (mem_singleton_self _), rfl, hresponse⟩

/-- A question with another limit is answered from the cache with the reply to the earlier one. -/
theorem answered_for_another_limit : ∃ (reply : Replies) (calls : List (Rat × Question)),
    ¬ ∀ e ∈ (talkAfter (reply.service fun now _ _ => now + 2) true 1000 calls).log,
      AnswersOwn reply e := by
  -- The reply is the limit that the service is given.
  let reply : Replies := fun _ args => .ok ((args.lookup "max_tokens").getD .null).display
  let longer : Question := { briefly with maxTokens := .int 20 }
  refine ⟨reply, [(0, briefly), (60, longer)], fun h => ?_⟩
  have hten : reply briefly.prompt (callArguments briefly) = .ok "10" := rfl
  have htwenty : reply longer.prompt longer.ownArguments = .ok "20" := rfl
  have hkey : longer.key = briefly.key := rfl
  obtain ⟨e, he, hquestion, hresponse⟩ := exists_answered_alike hten hkey (fun now _ _ => now + 2) 1000 (0 : Rat) 60
  have hown := h e he
  rw [AnswersOwn, hquestion, hresponse, htwenty] at hown
  simp [Except.map] at hown

/-! The report on past questions is made from a history in which only what the service answered is
entered. -/

def Exchange.isFresh (e : Exchange) : Bool := e.asked && e.answer.isOk

variable {T : Type} {cutoff : Int} {t : Talk T}

/-- The report counts every question of the log, and as hits those that were answered from the
cache. -/
def Reports (o : Optimizer T) (cutoff : Int) (log : List Exchange) : Prop :=
  (o.report cutoff).member "query_count" = .ok (.nat log.length) ∧
  (log ≠ [] → (o.report cutoff).member "cache_hit_rate" =
    .ok (.float ((log.countP fun e => !e.asked).toFloat / log.length.toFloat)))

structure Entered (cutoff : Int) (t : Talk T) : Prop where
  count : t.optimizer.history.length = t.log.countP Exchange.isFresh
  entries : ∀ e ∈ t.optimizer.history, cutoff < e.1 ∧ e.2.cacheHit = false

theorem report_of_entered (h : Entered cutoff t) : let fresh := t.log.countP isFresh
    (t.optimizer.report cutoff).member "query_count" = .ok (.nat fresh) ∧
      (t.optimizer.report cutoff).member "cache_hit_rate" =
        .ok (.float (if fresh = 0 then 0.0 else (0 : Nat).toFloat / fresh.toFloat)) := by
  intro fresh
  have hrecent : t.optimizer.history.filter (fun e => decide (cutoff < e.1)) = t.optimizer.history :=
    filter_eq_self.mpr fun e he => decide_eq_true (h.entries e he).1
  have hhits : (t.optimizer.history.map (·.2)).filter Stats.cacheHit = [] := by
    simpa using fun s time hs => (h.entries (time, s) hs).2
  have hempty : (t.optimizer.history.map (·.2)).isEmpty = decide (fresh = 0) := by
    rw [Bool.eq_iff_iff, isEmpty_iff_length_eq_zero, length_map, h.count, decide_eq_true_iff]
  refine ⟨?_, ?_⟩
  · simp [report, hrecent, h.count, member, fresh]
  · simp [report, hrecent, hhits, hempty, h.count, member, lookup_cons, fresh]

theorem reports_iff_of_entered (h : Entered cutoff t) :
    Reports t.optimizer cutoff t.log ↔ ∀ e ∈ t.log, e.asked ∧ e.answer.isOk := by
  obtain ⟨hcount, hrate⟩ := report_of_entered h
  rw [Reports, hcount, hrate]
  have hall : t.log.countP isFresh = t.log.length ↔
      ∀ e ∈ t.log, e.asked ∧ e.answer.isOk := by
    simp [countP_eq_length, isFresh]
  constructor
  · rintro ⟨hsame, -⟩
    exact hall.mp (by simpa [nat] using hsame)
  · intro hfresh
    have hhits : (t.log.countP fun e => !e.asked) = 0 := countP_eq_zero.mpr fun e he => by simp [(hfresh e he).1]
    rw [hall.mpr hfresh, hhits]
    exact ⟨rfl, fun hne => by rw [if_neg (by simpa using hne)]⟩

variable [Seconds T]

variable {service : Service T} {o : Optimizer T} {calls : List (T × Question)}

theorem Entered.next (h : Entered cutoff t) {now : T}
    (hrecent : cutoff < micros (service now q.prompt (callArguments q)).2) :
    Entered cutoff (t.next service now q) := by
  obtain ⟨hcount, hentries⟩ := h
  cases hfound : (t.optimizer.cache.fetch now (questionKey (.text q.prompt) q.extra)).1.truthy with
  | true =>
    refine ⟨?_, ?_⟩
    · simpa [Talk.next, ask, key, hfound, isFresh] using hcount
    · simpa [Talk.next, ask, hfound] using hentries
  | false =>
    rcases hreply : service now q.prompt (callArguments q) with ⟨_ | r, later⟩
    · refine ⟨?_, ?_⟩
      · simpa [Talk.next, ask, hfound, hreply, isFresh, Except.toBool] using hcount
      · simpa [Talk.next, ask, hfound, hreply] using hentries
    · rw [hreply] at hrecent
      refine ⟨?_, ?_⟩
      · simpa [Talk.next, ask, key, hfound, hreply, isFresh, Except.toBool] using hcount
      · simp only [Talk.next, ask, hfound, hreply, Bool.false_eq_true, if_false, mem_append, mem_singleton]
        rintro e (he | rfl)
        · exact hentries e he
        · exact ⟨hrecent, rfl⟩

theorem entered_talkFrom (hfresh : o.history = [])
    (hclock : ∀ now prompt args, micros now ≤ micros (service now prompt args).2)
    (hwindow : ∀ e ∈ calls, cutoff < micros e.1) : Entered cutoff (talkFrom service o calls) := by
  have hstart : Entered cutoff (⟨o, []⟩ : Talk T) := by constructor <;> simp [hfresh]
  exact foldlRecOn calls _ hstart fun t ht e he => ht.next ((hwindow e he).trans_le (hclock _ _ _))

/-- After every run of questions inside the window the report counts those that the service
answered, and no hits. It says what it should exactly if every question was answered by the
service. -/
theorem report_complete_iff_all_fresh (service : Service T) (o : Optimizer T)
    (hfresh : o.history = [])
    (hclock : ∀ now prompt args, Seconds.micros now ≤ Seconds.micros (service now prompt args).2)
    {calls : List (T × Question)} {cutoff : Int}
    (hwindow : ∀ e ∈ calls, cutoff < Seconds.micros e.1) :
    let t := talkFrom service o calls
    let fresh := t.log.countP Exchange.isFresh
    t.log.map Exchange.question = calls.map Prod.snd ∧
    (t.optimizer.report cutoff).member "query_count" = .ok (.nat fresh) ∧
    (t.optimizer.report cutoff).member "cache_hit_rate" =
      .ok (.float (if fresh = 0 then 0.0 else (0 : Nat).toFloat / fresh.toFloat)) ∧
    (Reports t.optimizer cutoff t.log ↔ ∀ e ∈ t.log, e.asked = true ∧ e.answer.isOk = true) := by
  have hentered := entered_talkFrom hfresh hclock hwindow
  obtain ⟨hcount, hrate⟩ := report_of_entered hentered
  exact ⟨questions_talkFrom service o calls, hcount, hrate, reports_iff_of_entered hentered⟩

/-! A service that takes no time, and a cache without lifetimes. -/

def agrees : Replies := fun _ _ => .ok "yes"

def promptly : Service Rat := agrees.service fun now _ _ => now

def fresh : Optimizer Rat := { cache := .opened some [] true 1000 }

theorem asked_first (q : Question) :
    (talkFrom promptly fresh [(0, q)]).log.map (fun e => (e.asked, e.answer.isOk)) = [(true, true)] := by
  have hmiss : (fresh.cache.fetch 0 q.key).1.truthy = false := rfl
  obtain ⟨stats, hanswer, -⟩ := ask_of_reply (fun now _ _ => now) hmiss (rfl : agrees _ _ = .ok "yes")
  simp [talkFrom, Talk.next, hmiss, promptly, hanswer, Except.toBool]

theorem asked_again (q : Question) : (talkFrom promptly fresh [(0, q), (0, q)]).log.map
    (fun e => (e.asked, e.answer.isOk)) = [(true, true), (false, true)] := by
  obtain ⟨stats, hfound⟩ := fetch_after_reply (rfl : agrees q.prompt (callArguments q) = .ok "yes") rfl
    (fun now _ _ => now) 1000 (0 : Rat) 0
  have hheld : ((fresh.ask promptly 0 q).2.2.cache.fetch 0 q.key).1.truthy := by
    rw [promptly, fresh, hfound]
    rfl
  have hanswer : ((fresh.ask promptly 0 q).2.2.ask promptly 0 q).1 = .ok _ :=
    (ask_of_held (fun now _ _ => now) hheld).1
  have hfirst := asked_first q
  simp only [talkFrom, foldl_cons, foldl_nil, Talk.next, map_append] at hfirst ⊢
  rw [hfirst, hheld, hanswer]
  rfl

theorem before_start : ∀ e ∈ [((0 : Rat), briefly), (0, briefly)], -1 < micros e.1 := by
  simpa using (by decide : -1 < micros (0 : Rat))

theorem countP_isFresh {log : List Exchange}
    (h : log.map (fun e => (e.asked, e.answer.isOk)) = [(true, true), (false, true)]) :
    log.countP isFresh = 1 := by
  change log.countP ((fun p : Bool × Bool => p.1 && p.2) ∘ fun e => (e.asked, e.answer.isOk)) = 1
  rw [← countP_map, h]
  rfl

theorem not_all_fresh {log : List Exchange}
    (h : log.map (fun e => (e.asked, e.answer.isOk)) = [(true, true), (false, true)]) :
    ¬ ∀ e ∈ log, e.asked = true ∧ e.answer.isOk = true := by
  intro hall
  have hsecond : (false, true) ∈ log.map fun e => (e.asked, e.answer.isOk) := by simp [h]
  obtain ⟨e, he, hpair⟩ := mem_map.mp hsecond
  simp [hall e he] at hpair

theorem report_complete_iff_all_fresh_twice :
    let t := talkFrom promptly fresh [(0, briefly), (0, briefly)]
    (∀ e ∈ [((0 : Rat), briefly), (0, briefly)], -1 < Seconds.micros e.1) ∧
      t.log.map Exchange.question = [briefly, briefly] ∧
      (t.optimizer.report (-1)).member "query_count" = .ok (.nat 1) ∧ ¬ Reports t.optimizer (-1) t.log := by
  intro t
  obtain ⟨hquestions, hcount, -, hreports⟩ :=
    report_complete_iff_all_fresh promptly fresh rfl (fun _ _ _ => le_rfl) before_start
  refine ⟨before_start, hquestions, ?_, mt hreports.mp (not_all_fresh (asked_again briefly))⟩
  rw [hcount, countP_isFresh (asked_again briefly)]

/-- A question that is asked again is answered from the cache, and the report tells of one
question. -/
theorem asked_again_not_counted :
    ∃ calls : List (Rat × Question), let t := talkFrom promptly fresh calls
    t.log.map (fun e => (e.asked, e.answer.isOk)) = [(true, true), (false, true)] ∧
      (t.optimizer.report (-1)).member "query_count" = .ok (.nat 1) ∧ ¬ Reports t.optimizer (-1) t.log := by
  refine ⟨[(0, briefly), (0, briefly)], ?_⟩
  intro t
  have hlog : t.log.map (fun e => (e.asked, e.answer.isOk)) = [(true, true), (false, true)] := asked_again briefly
  have hentered : Entered (-1) t := entered_talkFrom rfl (fun _ _ _ => le_rfl) before_start
  refine ⟨hlog, by rw [(report_of_entered hentered).1, countP_isFresh hlog], fun h => ?_⟩
  exact not_all_fresh hlog ((reports_iff_of_entered hentered).mp h)

end CodeAudit.Assistant
