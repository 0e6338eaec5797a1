import DfuUtilQda.Proofs.ReceptionSafety
import DfuUtilQda.Proofs.LockStep
import DfuUtilQda.Proofs.AgreementLimits
import DfuUtilQda.Proofs.StaleResponse
import DfuUtilQda.Proofs.DownloadResult
import DfuUtilQda.Proofs.DeviceRecovery
import DfuUtilQda.Proofs.DeviceIdentity
import DfuUtilQda.Proofs.AltSetting
import DfuUtilQda.Proofs.MessagePadding
import DfuUtilQda.Proofs.ReceptionFaults
import DfuUtilQda.Proofs.ReceptionStops
import DfuUtilQda.Proofs.SenderDiscipline
import DfuUtilQda.Proofs.BufferSafety
import DfuUtilQda.Proofs.Upload
import DfuUtilQda.Proofs.TransferSize
import DfuUtilQda.Proofs.PacketRemainder
import DfuUtilQda.Proofs.FileLayout
import DfuUtilQda.Proofs.FileCrc
import DfuUtilQda.Proofs.PrefixLength
import DfuUtilQda.Proofs.Restoring
import DfuUtilQda.Proofs.StdinReading
import DfuUtilQda.Proofs.LineEnds
import DfuUtilQda.Proofs.LineTraffic
import DfuUtilQda.Proofs.ReadingBack
import DfuUtilQda.Proofs.SerialPort
import DfuUtilQda.Proofs.SerialTraffic
import DfuUtilQda.Proofs.LossyLine
import DfuUtilQda.Proofs.NeverTorn
