import KafkaBroker.ConsumerCore

/-! What `producer.cpp` sends for its arguments, and the lines of a `FETCH` response. -/

namespace KafkaBroker

open ByteText

/-- The partition check of `producer.cpp`; `none` where it prints an error. -/
def producerPartition (partitionText : Bytes) : Option Int :=
  match stoi partitionText with
  | none => none
  | some (partition, position) =>
      if position ≠ partitionText.length ∨ partition < 0 ∨ partition > 2 then none
      else some partition

/-- The request for accepted arguments, with the partition it names. -/
def producerRequest (topic partitionText message : Bytes) : Option (Int × Bytes) :=
  if topic = [] then none
  else match producerPartition partitionText with
    | none => none
    | some partition =>
        if message = [] then none
        else some (partition, ascii "PRODUCE " ++ topic ++ space :: decimalInt partition ++
          space :: message)

/-- The lines that a loop over `std::getline` reads: there is none behind a final newline. -/
def getLines (text : Bytes) : List Bytes :=
  let lines := splitLines text
  if lines.getLast? = some [] then lines.dropLast else lines

end KafkaBroker
