import BusMonitor.Alarm.Closure
import BusMonitor.Alarm.Window
import BusMonitor.Alarm.Terminate
import BusMonitor.Alarm.Agreement
import BusMonitor.Alarm.Classify
import BusMonitor.PC.Grammar
import BusMonitor.PC.SetRequest
import BusMonitor.PC.AlarmWalk
import BusMonitor.PC.EnergyWalk
import BusMonitor.PC.DataInfo
import BusMonitor.PC.Notice
import BusMonitor.SUB.Identity
import BusMonitor.SUB.ChangeFlag
import BusMonitor.SUB.Detect
import BusMonitor.Energy.Months
import BusMonitor.Energy.Counters
import BusMonitor.Energy.Query
import BusMonitor.GUI.Home
import BusMonitor.Fram.Driver
import BusMonitor.UART.Mailbox
import BusMonitor.PC.Settings
import BusMonitor.PC.Percent
import BusMonitor.PC.TimeFrame
import BusMonitor.PC.EnergyWire
import BusMonitor.GUI.HistoryAlarm
import BusMonitor.GUI.HistoryEnergy
import BusMonitor.GUI.Password
import BusMonitor.GUI.SystemCon
import BusMonitor.GUI.Login
import BusMonitor.TCP.Sending
import BusMonitor.PC.Corruption
import BusMonitor.Energy.Demand
import BusMonitor.Energy.Remainder
import BusMonitor.ATT.Calibration
import BusMonitor.GUI.HomePaint
import BusMonitor.GUI.Touch
import BusMonitor.GUI.TouchFilter
import BusMonitor.RTOS.HeapRun
import BusMonitor.ETH.TransmitRun
import BusMonitor.ETH.ReceiveRun
import BusMonitor.RTOS.QueueHistory
