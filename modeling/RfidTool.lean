import RfidTool.Firmware.Calibration
import RfidTool.Firmware.Exclusion
import RfidTool.Firmware.Vectors
import RfidTool.Rfid.AutoDetection
import RfidTool.Rfid.CarrierCounters
import RfidTool.Rfid.CarrierProtocol
import RfidTool.Rfid.DeviceScan
import RfidTool.Rfid.Em4100Resync
import RfidTool.Rfid.Em4100RoundTrip
import RfidTool.Rfid.Main
import RfidTool.Rfid.ManchesterLock
import RfidTool.Rfid.SyncLoss
