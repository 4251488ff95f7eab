import GoBricks.Lib.Framing
import GoBricks.Messaging.Declarations

/-!
# The hash of declarations

`Hash`: what has been declared is written to FNV-1a, record by record and field by field. The
exchanges and the queues come in the order of their names, the arguments of a record in the order of
their keys. Texts are written as they are, with nothing between them, and values of arguments with
no mark of their type.

The stream tells two sets apart exactly if it also tells their layouts apart
(`hashStream_separates`). It need not: the end of one text may be the front of the next one
(`hashStream_shifted`).
-/

open Text

namespace Topology

/-! ### Writing -/

/-- A flag is one byte. -/
def writeBool (b : Bool) : Bytes :=
  [if b then 1 else 0]

/-- The bytes of a word, the lowest one first. -/
def littleEndian (n : BitVec 64) : Bytes :=
  (List.range 8).map fun i ↦ .ofNat (n.toNat / 256 ^ i % 256)

variable {O : Type} [Host O]

/-- A value without its type or length. -/
def writeValue : Value O → Bytes
  | .string s => s
  | .int n | .int64 n => littleEndian n
  | .bool b => writeBool b
  | .float64 bits => littleEndian bits
  | .time t => Host.printed t
  | .other v => Host.printed v

/-- The entries of a map in the order of their keys. -/
def sortedArgs {α : Type} (t : Table α) : List (Bytes × α) :=
  t.sortedKeys.filterMap fun k ↦ (t.lookup k).map (k, ·)

/-- Keys and values one after the other. -/
def writeMapArgs (args : Args O) : Bytes :=
  (sortedArgs args).flatMap fun a ↦ a.1 ++ writeValue a.2

/-- The fields of an exchange. -/
def writeExchange (ex : ExchangeDeclaration (Args O)) : Bytes :=
  ex.name ++ (ex.type ++ (writeBool ex.durable ++ (writeBool ex.autoDelete ++
    (writeBool ex.internal ++ (writeBool ex.noWait ++ (writeBool ex.passive ++
      writeMapArgs ex.args))))))

/-- The fields of a queue. -/
def writeQueue (q : QueueDeclaration (Args O)) : Bytes :=
  q.name ++ (writeBool q.durable ++ (writeBool q.autoDelete ++ (writeBool q.exclusive ++
    (writeBool q.noWait ++ writeMapArgs q.args))))

/-- The fields of a binding. -/
def writeBinding (b : BindingDeclaration (Args O)) : Bytes :=
  b.queue ++ (b.exchange ++ (b.routingKey ++ (writeBool b.noWait ++ writeMapArgs b.args)))

/-- The fields of a publisher. -/
def writePublisher (p : PublisherDeclaration (Args O)) : Bytes :=
  p.exchange ++ (p.routingKey ++ (p.eventType ++ (p.description ++ (writeBool p.mandatory ++
    (writeBool p.immediate ++ writeMapArgs p.headers)))))

/-- The fields of a consumer. -/
def writeConsumer (c : ConsumerDeclaration (Args O)) : Bytes :=
  c.queue ++ (c.consumer ++ (c.eventType ++ (c.description ++ (writeBool c.autoAck ++
    (writeBool c.exclusive ++ (writeBool c.noLocal ++ (writeBool c.noWait ++
      (writeBool c.tenantOptional ++ writeMapArgs c.args))))))))

namespace Declarations

variable {M : Type}

/-- The exchanges in the order of their names. -/
def sortedExchanges (d : Declarations M) : List (ExchangeDeclaration M) :=
  d.exchanges.sortedKeys.filterMap d.exchanges.lookup

/-- The queues by name. -/
def sortedQueues (d : Declarations M) : List (QueueDeclaration M) :=
  d.queues.sortedKeys.filterMap d.queues.lookup

/-- `Consumers`: the consumers in the order in which they were registered. -/
def consumers (d : Declarations M) : List (ConsumerDeclaration M) :=
  d.consumerOrder.filterMap d.consumerIndex.lookup

end Declarations

/-- What is written to the hash function. -/
def hashStream (d : Declarations (Args O)) : Bytes :=
  d.sortedExchanges.flatMap writeExchange ++ (d.sortedQueues.flatMap writeQueue ++
    (d.bindings.flatMap writeBinding ++ (d.publishers.flatMap writePublisher ++
      d.consumers.flatMap writeConsumer)))

/-- FNV-1a of 64 bits. -/
def fnv64a (stream : Bytes) : UInt64 :=
  stream.foldl (fun h b ↦ (h ^^^ b.toUInt64) * 1099511628211) 14695981039346656037

/-- `Hash` -/
def hash (d : Declarations (Args O)) : UInt64 :=
  fnv64a (hashStream d)

/-! ### What is covered -/

/-- What is written of a value. -/
inductive Written
  | string (s : Bytes)
  | integer (n : BitVec 64)
  | bool (b : Bool)
  | float (bits : BitVec 64)
  | printed (s : Bytes)
  deriving DecidableEq

/-- Ints and int64s are written alike, and values of other types as they are printed. -/
def Value.written : Value O → Written
  | .string s => .string s
  | .int n | .int64 n => .integer n
  | .bool b => .bool b
  | .float64 bits => .float bits
  | .time t => .printed (Host.printed t)
  | .other v => .printed (Host.printed v)

/-- The arguments as they are written. -/
abbrev WrittenArgs : Type :=
  List (Bytes × Written)

/-- What is covered of arguments. -/
def coveredArgs (args : Args O) : WrittenArgs :=
  (sortedArgs args).map fun a ↦ (a.1, a.2.written)

/-- The fields of all records that the hash covers. Of a consumer, the handler and the numbers of
workers and prefetched messages are not. -/
@[ext]
structure Covered where
  exchanges : List (ExchangeDeclaration WrittenArgs)
  queues : List (QueueDeclaration WrittenArgs)
  bindings : List (BindingDeclaration WrittenArgs)
  publishers : List (PublisherDeclaration WrittenArgs)
  consumers : List (ConsumerDeclaration WrittenArgs)

/-- What is covered of an exchange. -/
def coveredExchange (ex : ExchangeDeclaration (Args O)) : ExchangeDeclaration WrittenArgs :=
  { ex with args := coveredArgs ex.args }

/-- What is covered of a queue. -/
def coveredQueue (q : QueueDeclaration (Args O)) : QueueDeclaration WrittenArgs :=
  { q with args := coveredArgs q.args }

/-- What is covered of a binding. -/
def coveredBinding (b : BindingDeclaration (Args O)) : BindingDeclaration WrittenArgs :=
  { b with args := coveredArgs b.args }

/-- What is covered of a publisher. -/
def coveredPublisher (p : PublisherDeclaration (Args O)) : PublisherDeclaration WrittenArgs :=
  { p with headers := coveredArgs p.headers }

/-- What is covered of a consumer. -/
def coveredConsumer (c : ConsumerDeclaration (Args O)) : ConsumerDeclaration WrittenArgs :=
  { c with handler := none, workers := 0, prefetchCount := 0, args := coveredArgs c.args }

/-- What the hash covers. -/
def covered (d : Declarations (Args O)) : Covered where
  exchanges := d.sortedExchanges.map coveredExchange
  queues := d.sortedQueues.map coveredQueue
  bindings := d.bindings.map coveredBinding
  publishers := d.publishers.map coveredPublisher
  consumers := d.consumers.map coveredConsumer

/-! ### Layouts -/

/-- The types whose values are written differently. -/
inductive WrittenKind
  | string
  | integer
  | bool
  | float
  | printed
  deriving DecidableEq

/-- The type of what is written. -/
def Written.kind : Written → WrittenKind
  | .string _ => .string
  | .integer _ => .integer
  | .bool _ => .bool
  | .float _ => .float
  | .printed _ => .printed

/-- The lengths of the texts of a record, and for each argument the length of its key, and the kind
and the length of what is written of its value. -/
abbrev RecordLayout : Type :=
  List ℕ × List (ℕ × WrittenKind × ℕ)

/-- Where keys and values of arguments end. -/
def argsLayout (args : Args O) : List (ℕ × WrittenKind × ℕ) :=
  (sortedArgs args).map fun a ↦ (a.1.length, a.2.written.kind, (writeValue a.2).length)

/-- Where the texts of an exchange end. -/
def exchangeLayout (ex : ExchangeDeclaration (Args O)) : RecordLayout :=
  ([ex.name.length, ex.type.length], argsLayout ex.args)

/-- Where the texts of a queue end. -/
def queueLayout (q : QueueDeclaration (Args O)) : RecordLayout :=
  ([q.name.length], argsLayout q.args)

/-- Where the texts of a binding end. -/
def bindingLayout (b : BindingDeclaration (Args O)) : RecordLayout :=
  ([b.queue.length, b.exchange.length, b.routingKey.length], argsLayout b.args)

/-- Where the texts of a publisher end. -/
def publisherLayout (p : PublisherDeclaration (Args O)) : RecordLayout :=
  ([p.exchange.length, p.routingKey.length, p.eventType.length, p.description.length],
    argsLayout p.headers)

/-- Where the texts of a consumer end. -/
def consumerLayout (c : ConsumerDeclaration (Args O)) : RecordLayout :=
  ([c.queue.length, c.consumer.length, c.eventType.length, c.description.length],
    argsLayout c.args)

/-- The layouts of all records, in the order in which they are written. -/
structure Layout where
  exchanges : List RecordLayout
  queues : List RecordLayout
  bindings : List RecordLayout
  publishers : List RecordLayout
  consumers : List RecordLayout
  deriving DecidableEq

/-- Where the stream has its records and texts. -/
def layout (d : Declarations (Args O)) : Layout where
  exchanges := d.sortedExchanges.map exchangeLayout
  queues := d.sortedQueues.map queueLayout
  bindings := d.bindings.map bindingLayout
  publishers := d.publishers.map publisherLayout
  consumers := d.consumers.map consumerLayout

/-! ### The stream of sets of one layout -/

theorem writeBool_inj {b c : Bool} : writeBool b = writeBool c ↔ b = c := by
  revert b c
  decide

/-- A number is its digits. -/
theorem mod_pow_eq_of_digits {m n k : ℕ} (h : ∀ i < k, m / 256 ^ i % 256 = n / 256 ^ i % 256) :
    m % 256 ^ k = n % 256 ^ k := by
  induction k with
  | zero => rw [Nat.pow_zero, Nat.mod_one, Nat.mod_one]
  | succ k ih =>
    rw [Nat.mod_pow_succ, Nat.mod_pow_succ, ih fun i hi ↦ h i (Nat.lt_succ_of_lt hi),
      h k (Nat.lt_succ_self k)]

/-- Eight bytes hold a length. -/
theorem littleEndian_inj {m n : BitVec 64} : littleEndian m = littleEndian n ↔ m = n := by
  refine ⟨fun h ↦ ?_, congrArg littleEndian⟩
  have hdigit (i : ℕ) (hi : i < 8) : m.toNat / 256 ^ i % 256 = n.toNat / 256 ^ i % 256 := by
    have hget := congrArg (·[i]?) h
    simp only [littleEndian, List.getElem?_map, List.getElem?_range hi, Option.map_some,
      Option.some.injEq] at hget
    have hnat := congrArg UInt8.toNat hget
    simpa using hnat
  refine BitVec.eq_of_toNat_eq ?_
  have hmod := mod_pow_eq_of_digits hdigit
  have hm : m.toNat < 256 ^ 8 := m.isLt
  have hn : n.toNat < 256 ^ 8 := n.isLt
  rwa [Nat.mod_eq_of_lt hm, Nat.mod_eq_of_lt hn] at hmod

theorem framed_bool {R : Type} (f : R → Bool) :
    Framed (fun r ↦ writeBool (f r)) (fun _ ↦ ()) f :=
  .fixed (fun _ ↦ rfl) writeBool_inj.symm

/-- The bytes of what is written of a value. -/
def Written.bytes : Written → Bytes
  | .string s | .printed s => s
  | .integer n | .float n => littleEndian n
  | .bool b => writeBool b

/-- The bytes of a kind determine the value. -/
theorem Written.eq_of_bytes {a b : Written} (hkind : a.kind = b.kind) (h : a.bytes = b.bytes) :
    a = b := by
  cases a <;> cases b <;> cases hkind
  case string | printed => exact congrArg _ h
  case bool => exact congrArg _ (writeBool_inj.1 h)
  case integer | float => exact congrArg _ (littleEndian_inj.1 h)

/-- What is written is what the kind says. -/
theorem writeValue_eq (v : Value O) : writeValue v = v.written.bytes := by
  cases v <;> rfl

/-- Of two values of one kind, the same is written exactly if the same is to be written. -/
theorem framed_value :
    Framed (writeValue (O := O)) (fun v ↦ (v.written.kind, (writeValue v).length))
      Value.written := by
  refine ⟨fun h ↦ congrArg Prod.snd h, fun {v w} ↦ ?_⟩
  rw [Prod.mk.injEq]
  refine ⟨fun h ↦ ?_, fun ⟨⟨hkind, _⟩, hwrite⟩ ↦ ?_⟩
  · have hwrite : writeValue v = writeValue w := by
      rw [writeValue_eq, writeValue_eq, h]
    exact ⟨⟨congrArg Written.kind h, congrArg List.length hwrite⟩, hwrite⟩
  · rw [writeValue_eq, writeValue_eq] at hwrite
    exact Written.eq_of_bytes hkind hwrite

/-- The arguments can be read back, in the order of their keys. -/
theorem framed_args : Framed (writeMapArgs (O := O)) argsLayout coveredArgs :=
  have hentry := (Framed.text Prod.fst).append (framed_value.comp Prod.snd)
  (hentry.list.comp sortedArgs).congr .rfl .rfl

/-- So can an exchange. -/
theorem framed_exchange : Framed (writeExchange (O := O)) exchangeLayout coveredExchange := by
  refine Framed.congr
    ((Framed.text ExchangeDeclaration.name).append <|
      (Framed.text ExchangeDeclaration.type).append <|
      (framed_bool ExchangeDeclaration.durable).append <|
      (framed_bool ExchangeDeclaration.autoDelete).append <|
      (framed_bool ExchangeDeclaration.internal).append <|
      (framed_bool ExchangeDeclaration.noWait).append <|
      (framed_bool ExchangeDeclaration.passive).append <|
      Framed.comp framed_args ExchangeDeclaration.args) ?_ ?_
  · simp [exchangeLayout, and_assoc]
  · simp only [coveredExchange, ExchangeDeclaration.mk.injEq, Prod.mk.injEq]
    tauto

theorem framed_queue : Framed (writeQueue (O := O)) queueLayout coveredQueue := by
  refine Framed.congr
    ((Framed.text QueueDeclaration.name).append <|
      (framed_bool QueueDeclaration.durable).append <|
      (framed_bool QueueDeclaration.autoDelete).append <|
      (framed_bool QueueDeclaration.exclusive).append <|
      (framed_bool QueueDeclaration.noWait).append <|
      Framed.comp framed_args QueueDeclaration.args) ?_ ?_
  · simp [queueLayout]
  · simp [coveredQueue]

theorem framed_binding : Framed (writeBinding (O := O)) bindingLayout coveredBinding := by
  refine Framed.congr
    ((Framed.text BindingDeclaration.queue).append <|
      (Framed.text BindingDeclaration.exchange).append <|
      (Framed.text BindingDeclaration.routingKey).append <|
      (framed_bool BindingDeclaration.noWait).append <|
      Framed.comp framed_args BindingDeclaration.args) ?_ ?_
  · simp [bindingLayout, and_assoc]
  · simp [coveredBinding]

theorem framed_publisher : Framed (writePublisher (O := O)) publisherLayout coveredPublisher := by
  refine Framed.congr
    ((Framed.text PublisherDeclaration.exchange).append <|
      (Framed.text PublisherDeclaration.routingKey).append <|
      (Framed.text PublisherDeclaration.eventType).append <|
      (Framed.text PublisherDeclaration.description).append <|
      (framed_bool PublisherDeclaration.mandatory).append <|
      (framed_bool PublisherDeclaration.immediate).append <|
      Framed.comp framed_args PublisherDeclaration.headers) ?_ ?_
  · simp [publisherLayout, and_assoc]
  · simp [coveredPublisher]

theorem framed_consumer : Framed (writeConsumer (O := O)) consumerLayout coveredConsumer := by
  refine Framed.congr
    ((Framed.text ConsumerDeclaration.queue).append <|
      (Framed.text ConsumerDeclaration.consumer).append <|
      (Framed.text ConsumerDeclaration.eventType).append <|
      (Framed.text ConsumerDeclaration.description).append <|
      (framed_bool ConsumerDeclaration.autoAck).append <|
      (framed_bool ConsumerDeclaration.exclusive).append <|
      (framed_bool ConsumerDeclaration.noLocal).append <|
      (framed_bool ConsumerDeclaration.noWait).append <|
      (framed_bool ConsumerDeclaration.tenantOptional).append <|
      Framed.comp framed_args ConsumerDeclaration.args) ?_ ?_
  · simp [consumerLayout, and_assoc]
  · simp only [coveredConsumer, ConsumerDeclaration.mk.injEq, Prod.mk.injEq]
    tauto

/-- So can the whole stream, given how many there are of each. -/
theorem framed_declarations : Framed (hashStream (O := O)) layout covered := by
  refine Framed.congr
    (((Framed.list framed_exchange).comp Declarations.sortedExchanges).append <|
      ((Framed.list framed_queue).comp Declarations.sortedQueues).append <|
      ((Framed.list framed_binding).comp Declarations.bindings).append <|
      ((Framed.list framed_publisher).comp Declarations.publishers).append <|
      (Framed.list framed_consumer).comp Declarations.consumers) ?_ ?_
  · simp [layout]
  · simp [covered]

/-- **What the hash covers is told by the stream exactly if the layout is known**: two sets agree on
every field that the hash covers if and only if they are of one layout and written as the same
stream. -/
theorem hashStream_separates (d d' : Declarations (Args O)) :
    covered d = covered d' ↔ layout d = layout d' ∧ hashStream d = hashStream d' :=
  framed_declarations.covered_iff

/-! ### Sets that are not told apart -/

/-- Slices of texts as the values of other types. They are printed with spaces between. -/
instance : Host (List Bytes) where
  deepEqual v w := v == w
  printed v := ascii "[" ++ (ascii " ").intercalate v ++ ascii "]"
  typeName _ := ascii "[]string"
  printFloat _ := []
  quote s := s

/-- A set of one exchange. -/
def oneExchange (name type : String) : Declarations (Args (List Bytes)) :=
  Declarations.registerExchange {}
    (some ⟨ascii name, ascii type, true, false, false, false, ∅, false⟩)

/-- An exchange `ordersx-` of the type `topic` and an exchange `orders` of the plugin type `x-topic`
are written alike. -/
theorem hashStream_shifted :
    hashStream (oneExchange "ordersx-" "topic") = hashStream (oneExchange "orders" "x-topic") ∧
      covered (oneExchange "ordersx-" "topic") ≠ covered (oneExchange "orders" "x-topic") := by
  refine ⟨by decide +kernel, fun h ↦ ?_⟩
  have hnames := congrArg (fun c ↦ c.exchanges.map ExchangeDeclaration.name) h
  revert hnames
  decide +kernel

-- Two slices that are printed alike, and an int and an int64, count as the same value.
example : Value.written (.other [ascii "a b"]) = Value.written (.other [ascii "a", ascii "b"]) ∧
    (.int 1 : Value (List Bytes)).written = (.int64 1 : Value (List Bytes)).written := by
  decide

end Topology
