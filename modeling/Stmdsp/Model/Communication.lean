import Stmdsp.Model.Conversion

/-! `communication.cpp`: the command handlers, their table, and the loop of the
command thread. Every `Proc` step is a point where interrupts and higher priority
threads may come in between. -/

namespace Stmdsp

/-- `cmd[1] | (cmd[2] << 8)`, after a read of two bytes. -/
def param16 (bytes : List UInt8) : ℕ := (bytes.getD 0 0).toNat + (bytes.getD 1 0).toNat * 256

def writeADCBuffer : Fw Unit := do
  let size ← Proc.gets (·.In.bytesize)
  let bytes ← USBSerial.read size
  Proc.modify fun d => { d with In := d.In.withStorage (storeBytes d.In.mBuffer 0 bytes) }

def setBufferSize : Fw Unit := do
  if ← EM.assert (·.runStatus == .Idle) .NotIdle then
    let bytes ← USBSerial.read 2
    if ← EM.assert (fun _ => bytes.length == 2) .BadParamSize then
      let count := param16 bytes * 2
      if ← EM.assert (fun _ => decide (count ≤ MAX_SAMPLE_BUFFER_SIZE)) .BadParam then
        Proc.modify fun d => { d with In := d.In.setSize count }
        Proc.modify fun d => { d with Out := d.Out.setSize count }

def updateGenerator : Fw Unit := do
  let bytes ← USBSerial.read 2
  if ← EM.assert (fun _ => bytes.length == 2) .BadParamSize then
    let count := param16 bytes
    if ← EM.assert (fun _ => decide (count ≤ MAX_SAMPLE_BUFFER_SIZE)) .BadParam then
      let running ← Proc.gets DAC.isSigGenRunning
      if !running then
        Proc.modify fun d => { d with Generator := d.Generator.setSize count }
        let size ← Proc.gets (·.Generator.bytesize)
        let bytes ← USBSerial.read size
        Proc.modify fun d => { d with
          Generator := d.Generator.withStorage (storeBytes d.Generator.mBuffer 0 bytes) }
      else
        let more ← DAC.sigGenWantsMore
        if more = -1 then
          USBSerial.write fun _ => [0]
        else
          USBSerial.write fun _ => [1]
          let half ← Proc.gets fun d => if more = 0 then d.Generator.data else d.Generator.middata
          let size ← Proc.gets (·.Generator.bytesize)
          let bytes ← USBSerial.read (size / 2)
          Proc.modify fun d => { d with
            Generator := d.Generator.withStorage (storeBytes d.Generator.mBuffer (2 * half) bytes) }

def loadAlgorithm : Fw Unit := do
  if ← EM.assert (·.runStatus == .Idle) .NotIdle then
    let bytes ← USBSerial.read 2
    if ← EM.assert (fun _ => bytes.length == 2) .BadParamSize then
      let size := param16 bytes
      if ← EM.assert (fun _ => decide (size < MAX_ELF_FILE_SIZE)) .BadUserCodeSize then
        let bytes ← USBSerial.read size
        Proc.modify fun d => { d with mem := Memory.store d.mem d.mFileBuffer bytes }
        let success ← ELFManager.loadFromInternalBuffer
        let _ ← EM.assert (fun _ => success) .BadUserCodeLoad

def readStatus : Fw Unit := do
  let status ← Proc.gets (·.runStatus.code)
  let error ← Proc.act fun d => (d.em.pop.1, { d with em := d.em.pop.2 })
  USBSerial.write fun _ => [status, error.code]

def measureConversion : Fw Unit := do
  if ← EM.assert (·.runStatus == .Running) .NotRunning then
    ConversionManager.startMeasurement

def startConversion : Fw Unit := do
  if ← EM.assert (·.runStatus == .Idle) .NotIdle then
    Proc.modify fun d => { d with runStatus := .Running }
    ConversionManager.start

def stopConversion : Fw Unit := do
  if ← EM.assert (·.runStatus == .Running) .NotRunning then
    ConversionManager.stop
    Proc.modify fun d => { d with runStatus := .Idle }

def startGenerator : Fw Unit := do
  let count ← Proc.gets (·.Generator.mSize)
  DAC.start 1 count

def readADCBuffer : Fw Unit := USBSerial.write fun d => readBytes d.In.mBuffer 0 d.In.bytesize

def readDACBuffer : Fw Unit := USBSerial.write fun d => readBytes d.Out.mBuffer 0 d.Out.bytesize

def unloadAlgorithm : Fw Unit := Proc.modify ELFManager.unload

/-- "stmdspl" -/
def readIdentifier : Fw Unit :=
  USBSerial.write fun _ => [0x73, 0x74, 0x6D, 0x64, 0x73, 0x70, 0x6C]

def wordBytes (w : UInt32) : List UInt8 :=
  [w.toUInt8, (w >>> 8).toUInt8, (w >>> 16).toUInt8, (w >>> 24).toUInt8]

def readExecTime : Fw Unit := USBSerial.write fun d => wordBytes d.tmLast

def sampleRate : Fw Unit := do
  let bytes ← USBSerial.read 1
  if ← EM.assert (fun _ => bytes.length == 1) .BadParamSize then
    let r := bytes.getD 0 0
    if r = 0xFF then
      let r ← Proc.gets SClock.getRate
      USBSerial.write fun _ => [r.toUInt8]
    else
      SClock.setRate r.toNat
      ADC.setRate r.toNat

/-- The chunks of a bulk reply from byte `offset` of the half at sample `samps`. -/
def sendChunks (buffer : Device → SampleBuffer) (samps total offset : ℕ) : Fw Unit :=
  if 512 < total then do
    USBSerial.write fun d => readBytes (buffer d).mBuffer (2 * samps + offset) 512
    USBSerial.awaitAck
    sendChunks buffer samps (total - 512) (offset + 512)
  else do
    USBSerial.write fun d => readBytes (buffer d).mBuffer (2 * samps + offset) total
    USBSerial.awaitAck
termination_by total

/-- The reply of 's' and 't', which differ in the buffer alone. -/
def sendModified (buffer : Device → SampleBuffer)
    (setBuffer : SampleBuffer → Device → Device) : Fw Unit := do
  let mark ← Proc.act fun d => ((buffer d).modified.1, setBuffer (buffer d).modified.2 d)
  match mark with
  | some samps => do
    let size ← Proc.gets fun d => (buffer d).mSize
    USBSerial.write fun _ => [(size / 2 % 256).toUInt8, (size / 2 / 256 % 256).toUInt8]
    let total ← Proc.gets fun d => (buffer d).bytesize / 2
    sendChunks buffer samps total 0
  | none => USBSerial.write fun _ => [0, 0]

def readConversionResults : Fw Unit := sendModified (·.Out) fun b d => { d with Out := b }

def readConversionInput : Fw Unit := sendModified (·.In) fun b d => { d with In := b }

/-- Its body is commented out in the source. -/
def readMessage : Fw Unit := pure ()

def stopGenerator : Fw Unit := DAC.stop 1

def commandTable : List (UInt8 × Fw Unit) :=
  [('A'.toUInt8, writeADCBuffer),
   ('B'.toUInt8, setBufferSize),
   ('D'.toUInt8, updateGenerator),
   ('E'.toUInt8, loadAlgorithm),
   ('I'.toUInt8, readStatus),
   ('M'.toUInt8, measureConversion),
   ('R'.toUInt8, startConversion),
   ('S'.toUInt8, stopConversion),
   ('W'.toUInt8, startGenerator),
   ('a'.toUInt8, readADCBuffer),
   ('d'.toUInt8, readDACBuffer),
   ('e'.toUInt8, unloadAlgorithm),
   ('i'.toUInt8, readIdentifier),
   ('m'.toUInt8, readExecTime),
   ('r'.toUInt8, sampleRate),
   ('s'.toUInt8, readConversionResults),
   ('t'.toUInt8, readConversionInput),
   ('u'.toUInt8, readMessage),
   ('w'.toUInt8, stopGenerator)]

/-- The handler of a command byte; bytes without an entry do nothing. -/
def dispatch (c : UInt8) : Fw Unit :=
  match commandTable.find? (·.1 == c) with
  | some (_, handler) => handler
  | none => pure ()

namespace CommunicationManager

/-- `USBSerial::isActive()` and the read of a command byte. -/
def receiveCommand : Fw (List UInt8) := do
  if ← Proc.gets fun d => !d.input.isEmpty then USBSerial.read 1 else pure []

/-- One pass of the loop of `threadComm`. -/
def threadComm : Fw Unit := do
  match ← receiveCommand with
  | c :: _ => do
    Proc.modify (Device.logCall (.command c))
    dispatch c
  | [] => pure ()

end CommunicationManager

end Stmdsp
